import Mathlib

/-! Two programs on the ends of a byte-stream connection. One runs to its end, the
other answers requests in a loop. Each direction is a queue of bytes, so that either
program may run ahead of the other; `lock` runs both in step, and `lock_adequate` says
that a session in step stays in step under every interleaving. A `recv` waits until bytes
are there, also one that asks for none. -/
namespace Duplex

/-- A non-empty piece of the stream with the meaning one end gives to it. -/
structure Message (T : Type*) where
  tag : T
  bytes : List UInt8
  nonempty : bytes ≠ []

/-- What a program does on its connection. `recv` asks for a number of bytes, possibly 0, `halt`
is the end of the process. -/
inductive Proc (T α : Type) where
  | ret (a : α)
  | send (m : Message T) (k : Proc T α)
  | recv (tag : T) (size : Nat) (k : List UInt8 → Proc T α)
  | halt

namespace Proc
variable {T α β γ : Type}

def bind : Proc T α → (α → Proc T β) → Proc T β
  | ret a, f => f a
  | send m k, f => send m (k.bind f)
  | recv tag size k, f => recv tag size fun bytes => (k bytes).bind f
  | halt, _ => halt

instance : Monad (Proc T) where
  pure := ret
  bind := bind

theorem bind_assoc (p : Proc T α) (f : α → Proc T β) (g : β → Proc T γ) :
    p >>= f >>= g = p >>= fun a => f a >>= g := by
  induction p with
  | ret a => rfl
  | send m k ih => exact congrArg (send m) ih
  | recv tag size k ih => exact congrArg (recv tag size) (funext ih)
  | halt => rfl

theorem bind_pure (p : Proc T α) : p >>= pure = p := by
  induction p with
  | ret a => rfl
  | send m k ih => exact congrArg (send m) ih
  | recv tag size k ih => exact congrArg (recv tag size) (funext ih)
  | halt => rfl

/-- Sending no bytes has no effect on the connection. -/
def sendBytes (tag : T) (bytes : List UInt8) : Proc T Unit :=
  if h : bytes = [] then pure () else send ⟨tag, bytes, h⟩ (pure ())

def recvBytes (tag : T) (size : Nat) : Proc T (List UInt8) := recv tag size pure

end Proc

/-- A program that receives requests in a loop: it rests at a `recv` of fixed size. -/
structure Loop (T β : Type) where
  tag : T
  size : Nat
  positive : 0 < size
  handle : β → List UInt8 → Proc T β

section Lock
variable {T α β γ : Type}

/-- At the end of a request the loop is back at its `recv`. -/
def Loop.unfold (loop : Loop T β) : Proc T β → Proc T β
  | .ret b => .recv loop.tag loop.size (loop.handle b)
  | q => q

/-- `waiting`: each end waits for the other. `blocked`: a message meets no `recv` for it. -/
inductive Outcome (T α β : Type) where
  | finished (a : α) (q : Proc T β)
  | halted
  | waiting
  | blocked

/-- Continue behind a finished part. -/
def Outcome.andThen (r : Outcome T α β) (f : α → Proc T β → Outcome T γ β) : Outcome T γ β :=
  match r with
  | .finished a q => f a q
  | .halted => .halted
  | .waiting => .waiting
  | .blocked => .blocked

variable [DecidableEq T] (loop : Loop T β)

/-- Run both programs in step: every message is received at once, as what it was sent
for and in its whole length. -/
def lock : Proc T α → Proc T β → Outcome T α β
  | .ret a, q => .finished a q
  | .halt, _ => .halted
  | .send m k, q =>
      match loop.unfold q with
      | .recv tag size kq =>
          if m.tag = tag ∧ m.bytes.length = size then lock k (kq m.bytes) else .blocked
      | _ => .blocked
  | .recv tag size k, q =>
      match loop.unfold q with
      | .send m kq =>
          if m.tag = tag ∧ m.bytes.length = size then lock (k m.bytes) kq else .blocked
      | .recv _ _ _ => .waiting
      | _ => .blocked

variable {loop}

theorem lock_bind (p : Proc T α) (f : α → Proc T γ) (q : Proc T β) :
    lock loop (p >>= f) q = (lock loop p q).andThen fun a q' => lock loop (f a) q' := by
  induction p generalizing q with
  | ret a => rfl
  | halt => rfl
  | send m k ih =>
      change lock loop (.send m (k >>= f)) q = _
      cases unfolded : loop.unfold q with
      | recv tag size kq =>
          simp only [lock, unfolded]
          split_ifs
          · exact ih _
          · rfl
      | ret b => simp only [lock, unfolded, Outcome.andThen]
      | send m' kq => simp only [lock, unfolded, Outcome.andThen]
      | halt => simp only [lock, unfolded, Outcome.andThen]
  | recv tag size k ih =>
      change lock loop (.recv tag size fun bytes => k bytes >>= f) q = _
      cases unfolded : loop.unfold q with
      | send m kq =>
          simp only [lock, unfolded]
          split_ifs
          · exact ih _ _
          · rfl
      | ret b => simp only [lock, unfolded, Outcome.andThen]
      | recv tag' size' kq => simp only [lock, unfolded, Outcome.andThen]
      | halt => simp only [lock, unfolded, Outcome.andThen]

theorem lock_send_recv (tag : T) {bytes : List UInt8} {size : Nat} (length : bytes.length = size) (positive : 0 < size)
    (k : Unit → Proc T α) (kq : List UInt8 → Proc T β) :
    lock loop (Proc.sendBytes tag bytes >>= k) (Proc.recvBytes tag size >>= kq) =
      lock loop (k ()) (kq bytes) := by
  have nonempty : bytes ≠ [] := List.length_pos_iff.mp (length ▸ positive)
  rw [Proc.sendBytes, dif_neg nonempty]
  exact if_pos ⟨rfl, length⟩

theorem lock_recv_send (tag : T) {bytes : List UInt8} {size : Nat} (length : bytes.length = size) (positive : 0 < size)
    (k : List UInt8 → Proc T α) (kq : Unit → Proc T β) :
    lock loop (Proc.recvBytes tag size >>= k) (Proc.sendBytes tag bytes >>= kq) =
      lock loop (k bytes) (kq ()) := by
  have nonempty : bytes ≠ [] := List.length_pos_iff.mp (length ▸ positive)
  rw [Proc.sendBytes, dif_neg nonempty]
  exact if_pos ⟨rfl, length⟩

theorem lock_send_loop {bytes : List UInt8} (length : bytes.length = loop.size) (k : Unit → Proc T α) (b : β) :
    lock loop (Proc.sendBytes loop.tag bytes >>= k) (pure b) = lock loop (k ()) (loop.handle b bytes) := by
  have nonempty : bytes ≠ [] := List.length_pos_iff.mp (length ▸ loop.positive)
  rw [Proc.sendBytes, dif_neg nonempty]
  exact if_pos ⟨rfl, length⟩

end Lock

/-- Both programs, the bytes under way, and the messages each end has sent and received. -/
structure Config (T α β : Type) where
  client : Proc T α
  server : Proc T β
  toServer : List UInt8
  toClient : List UInt8
  clientSent : List (Message T)
  serverReceived : List (Message T)
  serverSent : List (Message T)
  clientReceived : List (Message T)

section Asynchronous
variable {T α β : Type}

/-- No byte is under way and no message has been exchanged. -/
def Config.start (p : Proc T α) (q : Proc T β) : Config T α β := ⟨p, q, [], [], [], [], [], []⟩

/-- One program makes one step. A `recv` takes exactly the bytes it asks for; one that asks for none
goes on as soon as some are there, and leaves them. -/
inductive Step (loop : Loop T β) : Config T α β → Config T α β → Prop where
  | clientSend {cfg m k} (h : cfg.client = .send m k) : Step loop cfg
      { cfg with client := k, toServer := cfg.toServer ++ m.bytes, clientSent := cfg.clientSent ++ [m] }
  | serverSend {cfg m k} (h : cfg.server = .send m k) : Step loop cfg
      { cfg with server := k, toClient := cfg.toClient ++ m.bytes, serverSent := cfg.serverSent ++ [m] }
  | clientRecv {cfg k rest} {m : Message T} (h : cfg.client = .recv m.tag m.bytes.length k)
      (taken : cfg.toClient = m.bytes ++ rest) : Step loop cfg
      { cfg with client := k m.bytes, toClient := rest, clientReceived := cfg.clientReceived ++ [m] }
  | serverRecv {cfg k rest} {m : Message T} (h : loop.unfold cfg.server = .recv m.tag m.bytes.length k)
      (taken : cfg.toServer = m.bytes ++ rest) : Step loop cfg
      { cfg with server := k m.bytes, toServer := rest, serverReceived := cfg.serverReceived ++ [m] }
  | clientWake {cfg tag k} (h : cfg.client = .recv tag 0 k) (ready : cfg.toClient ≠ []) : Step loop cfg
      { cfg with client := k [] }
  | serverWake {cfg tag k} (h : loop.unfold cfg.server = .recv tag 0 k) (ready : cfg.toServer ≠ []) : Step loop cfg
      { cfg with server := k [] }

def Reaches (loop : Loop T β) : Config T α β → Config T α β → Prop := Relation.ReflTransGen (Step loop)

/-- The session is over: the client has its result, the loop is at rest, both
directions are empty, and each end has received exactly what the other one sent. -/
structure Finished (cfg : Config T α β) (a : α) (b : β) : Prop where
  client : cfg.client = .ret a
  server : cfg.server = .ret b
  toServer : cfg.toServer = []
  toClient : cfg.toClient = []
  received : cfg.serverReceived = cfg.clientSent ∧ cfg.clientReceived = cfg.serverSent

/-- Each end waits for bytes, and none are under way. -/
structure Starved (loop : Loop T β) (cfg : Config T α β) : Prop where
  client : ∃ tag size k, cfg.client = .recv tag size k
  server : ∃ tag size k, loop.unfold cfg.server = .recv tag size k
  toServer : cfg.toServer = []
  toClient : cfg.toClient = []

/-- In every interleaving each end has received a part of what the other sent, message
by message, and the session can be completed with these results. -/
def InStep (loop : Loop T β) (start : Config T α β) (a : α) (b : β) : Prop :=
  ∀ cfg, Reaches loop start cfg →
    cfg.serverReceived <+: cfg.clientSent ∧ cfg.clientReceived <+: cfg.serverSent ∧
      ∃ done, Reaches loop cfg done ∧ Finished done a b

/-- Take back the sending of messages. -/
def unsend : List (Message T) → Proc T α → Proc T α
  | [], p => p
  | m :: ms, p => .send m (unsend ms p)

theorem unsend_concat (ms : List (Message T)) (m : Message T) (p : Proc T α) :
    unsend (ms ++ [m]) p = unsend ms (.send m p) := by
  induction ms with
  | nil => rfl
  | cons m' ms ih => exact congrArg (Proc.send m') ih

def flatten (ms : List (Message T)) : List UInt8 := ms.flatMap Message.bytes

variable [DecidableEq T]

/-- The messages under way are `ms` to the loop and `ns` from it; with their sending
taken back the programs run in step to the outcome `r`. -/
structure Pending (loop : Loop T β) (r : Outcome T α β) (cfg : Config T α β) (ms ns : List (Message T)) :
    Prop where
  toServer : cfg.toServer = flatten ms
  toClient : cfg.toClient = flatten ns
  toServerLog : cfg.clientSent = cfg.serverReceived ++ ms
  toClientLog : cfg.serverSent = cfg.clientReceived ++ ns
  locked : lock loop (unsend ms cfg.client) (unsend ns cfg.server) = r

variable {loop : Loop T β} {r : Outcome T α β} {cfg cfg' : Config T α β} {ms ns : List (Message T)}

theorem lock_send_unblocked {m : Message T} {k : Proc T α} {q : Proc T β} (h : lock loop (.send m k) q = r)
    (free : r ≠ .blocked) : ∃ kq, loop.unfold q = .recv m.tag m.bytes.length kq ∧ lock loop k (kq m.bytes) = r := by
  unfold lock at h
  cases unfolded : loop.unfold q with
  | recv tag size kq =>
      simp only [unfolded] at h
      split_ifs at h with fits
      · obtain ⟨rfl, rfl⟩ := fits
        exact ⟨kq, rfl, h⟩
      · exact absurd h.symm free
  | ret b => simp only [unfolded] at h; exact absurd h.symm free
  | send m' kq => simp only [unfolded] at h; exact absurd h.symm free
  | halt => simp only [unfolded] at h; exact absurd h.symm free

theorem lock_recv_unblocked {tag : T} {size : Nat} {k : List UInt8 → Proc T α}
    {q : Proc T β} (h : lock loop (.recv tag size k) q = r) (free : r ≠ .blocked) :
    (∃ m kq, loop.unfold q = .send m kq ∧ m.tag = tag ∧ m.bytes.length = size ∧ lock loop (k m.bytes) kq = r) ∨
      r = .waiting ∧ ∃ tag' size' kq, loop.unfold q = .recv tag' size' kq := by
  unfold lock at h
  cases unfolded : loop.unfold q with
  | send m kq =>
      simp only [unfolded] at h
      split_ifs at h with fits
      · exact .inl ⟨m, kq, rfl, fits.1, fits.2, h⟩
      · exact absurd h.symm free
  | recv tag' size' kq =>
      simp only [unfolded] at h
      exact .inr ⟨h.symm, tag', size', kq, rfl⟩
  | ret b => simp only [unfolded] at h; exact absurd h.symm free
  | halt => simp only [unfolded] at h; exact absurd h.symm free

omit [DecidableEq T] in
theorem Loop.unfold_send {q k : Proc T β} {m : Message T} (h : loop.unfold q = .send m k) : q = .send m k := by
  cases q with
  | ret b => cases h
  | send m' k' => exact h
  | recv tag size k' => cases h
  | halt => cases h

omit [DecidableEq T] in
/-- The message that a receiver finds at the front of the stream is the oldest one under way. -/
theorem flatten_front {n m : Message T} {ns : List (Message T)} {rest : List UInt8} (tag : n.tag = m.tag)
    (length : n.bytes.length = m.bytes.length) (bytes : flatten (n :: ns) = m.bytes ++ rest) :
    n = m ∧ flatten ns = rest := by
  simp only [flatten, List.flatMap_cons] at bytes
  obtain ⟨same, remaining⟩ := List.append_inj bytes length
  refine ⟨?_, remaining⟩
  cases n; cases m
  cases tag; cases same
  rfl

omit [DecidableEq T] in
theorem flatten_nil_ne (m : Message T) (rest : List UInt8) :
    flatten ([] : List (Message T)) ≠ m.bytes ++ rest := by
  intro bytes
  simp only [flatten, List.flatMap_nil] at bytes
  exact m.nonempty (List.append_eq_nil_iff.mp bytes.symm).1

/-- The oldest message from the loop is the one that the client waits for. -/
theorem Pending.front {n : Message T} {tag : T} {size : Nat} {k : List UInt8 → Proc T α}
    (h : Pending loop r cfg [] (n :: ns)) (free : r ≠ .blocked) (waiting : cfg.client = .recv tag size k) :
    n.tag = tag ∧ n.bytes.length = size ∧ lock loop (k n.bytes) (unsend ns cfg.server) = r := by
  have locked := h.locked
  rw [waiting] at locked
  rcases lock_recv_unblocked locked free with ⟨m, kq, unfolded, tag, length, rest⟩ | ⟨-, _, _, _, unfolded⟩
  · obtain ⟨rfl, rfl⟩ := Proc.send.inj unfolded
    exact ⟨tag, length, rest⟩
  · cases unfolded

/-- Each step keeps the outcome of the session in step. -/
theorem Pending.step (h : Pending loop r cfg ms ns) (free : r ≠ .blocked) (taken : Step loop cfg cfg') :
    ∃ ms' ns', Pending loop r cfg' ms' ns' := by
  cases taken with
  | @clientSend m k sending =>
      refine ⟨ms ++ [m], ns, ?_, h.toClient, ?_, h.toClientLog, ?_⟩
      · simp [flatten, h.toServer]
      · simp [h.toServerLog]
      · rw [unsend_concat]
        exact sending ▸ h.locked
  | @serverSend m k sending =>
      refine ⟨ms, ns ++ [m], h.toServer, ?_, h.toServerLog, ?_, ?_⟩
      · simp [flatten, h.toClient]
      · simp [h.toClientLog]
      · rw [unsend_concat]
        exact sending ▸ h.locked
  | @clientRecv k rest m waiting bytes =>
      cases ns with
      | nil =>
          exact absurd (h.toClient.symm.trans bytes) (flatten_nil_ne m rest)
      | cons n ns =>
          cases ms with
          | cons m' ms =>
              obtain ⟨_, unfolded, _⟩ := lock_send_unblocked h.locked free
              cases unfolded
          | nil =>
              obtain ⟨tag, length, rest_locked⟩ := h.front free waiting
              obtain ⟨rfl, remaining⟩ := flatten_front tag length (h.toClient.symm.trans bytes)
              refine ⟨[], ns, h.toServer, remaining.symm, h.toServerLog, ?_, rest_locked⟩
              simp [h.toClientLog]
  | @serverRecv k rest m waiting bytes =>
      cases ms with
      | nil =>
          exact absurd (h.toServer.symm.trans bytes) (flatten_nil_ne m rest)
      | cons n ms =>
          obtain ⟨kq, unfolded, rest_locked⟩ := lock_send_unblocked h.locked free
          cases ns with
          | cons n' ns => cases unfolded
          | nil =>
              obtain ⟨tag, length, continued⟩ := Proc.recv.inj (waiting.symm.trans unfolded)
              obtain ⟨rfl, remaining⟩ := flatten_front tag.symm length.symm (h.toServer.symm.trans bytes)
              obtain rfl := continued
              refine ⟨ms, [], remaining.symm, h.toClient, ?_, h.toClientLog, rest_locked⟩
              simp [h.toServerLog]
  -- in step no `recv` of 0 bytes stands before a message
  | @clientWake tag k waiting ready =>
      cases ns with
      | nil => exact absurd h.toClient ready
      | cons n ns =>
          cases ms with
          | cons m ms =>
              obtain ⟨_, unfolded, _⟩ := lock_send_unblocked h.locked free
              cases unfolded
          | nil =>
              obtain ⟨-, length, -⟩ := h.front free waiting
              exact absurd (List.length_eq_zero_iff.mp length) n.nonempty
  | @serverWake tag k waiting ready =>
      cases ms with
      | nil => exact absurd h.toServer ready
      | cons m ms =>
          obtain ⟨kq, unfolded, _⟩ := lock_send_unblocked h.locked free
          cases ns with
          | cons n ns => cases unfolded
          | nil =>
              obtain ⟨-, length, -⟩ := Proc.recv.inj (waiting.symm.trans unfolded)
              exact absurd (List.length_eq_zero_iff.mp length.symm) m.nonempty

theorem Pending.reaches (h : Pending loop r cfg ms ns) (free : r ≠ .blocked) (run : Reaches loop cfg cfg') :
    ∃ ms' ns', Pending loop r cfg' ms' ns' := by
  induction run with
  | refl => exact ⟨ms, ns, h⟩
  | tail _ last ih =>
      obtain ⟨ms', ns', pending⟩ := ih
      exact pending.step free last

/-- A message that the client has sent, or sends now, reaches a server that waits for it. -/
theorem Pending.deliver {m : Message T} {k : Proc T α}
    (h : Pending loop r cfg ms ns) (free : r ≠ .blocked) (sending : unsend ms cfg.client = .send m k) :
    ∃ cfg' ms', Reaches loop cfg cfg' ∧ Pending loop r cfg' ms' [] ∧ unsend ms' cfg'.client = k := by
  -- a message that is still to be sent is sent first
  obtain ⟨mid, ms', run, pending, unsent⟩ : ∃ mid ms', Reaches loop cfg mid ∧ Pending loop r mid (m :: ms') ns ∧
      unsend ms' mid.client = k := by
    cases ms with
    | nil =>
        have taken : Step loop cfg _ := .clientSend sending
        have locked := h.locked
        rw [sending] at locked
        refine ⟨_, [], .single taken, ⟨?_, h.toClient, ?_, h.toClientLog, locked⟩, rfl⟩
        · simp [flatten, h.toServer]
        · simp [h.toServerLog]
    | cons m' ms' =>
        obtain ⟨rfl, same⟩ := Proc.send.inj sending
        exact ⟨cfg, ms', .refl, h, same⟩
  obtain ⟨kq, unfolded, locked⟩ := lock_send_unblocked pending.locked free
  cases ns with
  | cons n ns => cases unfolded
  | nil =>
      have bytes : mid.toServer = m.bytes ++ flatten ms' := by simp [pending.toServer, flatten]
      have taken : Step loop mid _ := .serverRecv unfolded bytes
      refine ⟨_, ms', run.tail taken, ⟨rfl, pending.toClient, ?_, pending.toClientLog, ?_⟩, unsent⟩
      · simp [pending.toServerLog]
      · exact locked

/-- A message that the server has sent, or sends now, reaches a client that waits for it, or both
ends wait. -/
theorem Pending.fetch {tag : T} {size : Nat} {k : List UInt8 → Proc T α}
    (h : Pending loop r cfg [] ns) (free : r ≠ .blocked) (waiting : cfg.client = .recv tag size k) :
    (∃ (m : Message T) (cfg' : Config T α β) (ns' : List (Message T)),
      Reaches loop cfg cfg' ∧ Pending loop r cfg' [] ns' ∧ cfg'.client = k m.bytes) ∨
      r = .waiting ∧ Starved loop cfg := by
  -- a message that is still to be sent is sent first
  have sent : (∃ (m : Message T) (mid : Config T α β) (ns' : List (Message T)),
      Reaches loop cfg mid ∧ Pending loop r mid [] (m :: ns') ∧ mid.client = cfg.client) ∨
        r = .waiting ∧ Starved loop cfg := by
    cases ns with
    | cons m ns' => exact .inl ⟨m, cfg, ns', .refl, h, rfl⟩
    | nil =>
        have locked := h.locked
        rw [waiting] at locked
        rcases lock_recv_unblocked locked free with ⟨m, kq, unfolded, _⟩ | ⟨same, tag', size', kq, unfolded⟩
        · have sending : cfg.server = .send m kq := Loop.unfold_send unfolded
          have taken : Step loop cfg _ := .serverSend sending
          have locked := h.locked
          change lock loop cfg.client cfg.server = r at locked
          rw [sending] at locked
          refine .inl ⟨m, _, [], .single taken, ⟨h.toServer, ?_, h.toServerLog, ?_, locked⟩, rfl⟩
          · simp [flatten, h.toClient]
          · simp [h.toClientLog]
        · exact .inr ⟨same, ⟨tag, size, k, waiting⟩, ⟨tag', size', kq, unfolded⟩, h.toServer, h.toClient⟩
  refine sent.imp_left ?_
  rintro ⟨m, mid, ns', run, pending, same⟩
  obtain ⟨rfl, rfl, locked⟩ := pending.front free (same.trans waiting)
  have bytes : mid.toClient = m.bytes ++ flatten ns' := by simp [pending.toClient, flatten]
  have taken : Step loop mid _ := .clientRecv (same.trans waiting) bytes
  refine ⟨m, _, ns', run.tail taken, ⟨pending.toServer, rfl, pending.toServerLog, ?_, locked⟩, rfl⟩
  simp [pending.toClientLog]

/-- From every configuration on the way the session runs on to its outcome, by
induction on what the client has left to do. -/
theorem Pending.completes (P : Proc T α) (h : Pending loop r cfg ms ns) (free : r ≠ .blocked)
    (left : unsend ms cfg.client = P) : ∃ done ns', Reaches loop cfg done ∧ Pending loop r done [] ns' ∧
      (done.client = .halt ∨ (∃ a, done.client = .ret a) ∨ r = .waiting ∧ Starved loop done) := by
  induction P generalizing cfg ms ns with
  | ret a =>
      cases ms with
      | cons m ms => cases left
      | nil => exact ⟨cfg, ns, .refl, h, .inr (.inl ⟨a, left⟩)⟩
  | halt =>
      cases ms with
      | cons m ms => cases left
      | nil => exact ⟨cfg, ns, .refl, h, .inl left⟩
  | send m k ih =>
      obtain ⟨mid, ms', run, pending, left'⟩ := h.deliver free left
      obtain ⟨done, ns', rest, final⟩ := ih pending left'
      exact ⟨done, ns', run.trans rest, final⟩
  | recv tag size k ih =>
      cases ms with
      | cons m ms => cases left
      | nil =>
          rcases h.fetch free left with ⟨m, mid, ns', run, pending, left'⟩ | starved
          · obtain ⟨done, ns', rest, final⟩ := ih m.bytes pending left'
            exact ⟨done, ns', run.trans rest, final⟩
          · exact ⟨cfg, ns, .refl, h, .inr (.inr starved)⟩

/-- A session that runs in step to its end stays in step under every interleaving. -/
theorem lock_adequate {p : Proc T α} {q : Proc T β} {a : α} {b : β}
    (h : lock loop p q = .finished a (.ret b)) : InStep loop (Config.start p q) a b := by
  have free : (Outcome.finished a (.ret b) : Outcome T α β) ≠ .blocked := by simp
  have start : Pending loop (.finished a (.ret b)) (Config.start p q) [] [] := ⟨rfl, rfl, rfl, rfl, h⟩
  intro cfg run
  obtain ⟨ms, ns, pending⟩ := start.reaches free run
  refine ⟨⟨ms, pending.toServerLog.symm⟩, ⟨ns, pending.toClientLog.symm⟩, ?_⟩
  obtain ⟨done, ns', rest, final, ended⟩ := pending.completes _ free rfl
  refine ⟨done, rest, ?_⟩
  have locked := final.locked
  rcases ended with halted | ⟨a', returned⟩ | ⟨waits, -⟩
  · rw [halted] at locked
    cases locked
  · rw [returned] at locked
    obtain ⟨rfl, server⟩ := Outcome.finished.inj locked
    cases ns' with
    | cons n ns' => cases server
    | nil =>
        refine ⟨returned, server, final.toServer, final.toClient, ?_, ?_⟩
        · simpa using final.toServerLog.symm
        · simpa using final.toClientLog.symm
  · cases waits

/-- A session whose client halts in step can run into the halt of the client. -/
theorem lock_halted {p : Proc T α} {q : Proc T β} (h : lock loop p q = .halted) :
    ∃ cfg, Reaches loop (Config.start p q) cfg ∧ cfg.client = .halt := by
  have free : (Outcome.halted : Outcome T α β) ≠ .blocked := by simp
  have start : Pending loop .halted (Config.start p q) [] [] := ⟨rfl, rfl, rfl, rfl, h⟩
  obtain ⟨done, ns', run, final, ended⟩ := start.completes _ free rfl
  refine ⟨done, run, ended.resolve_right ?_⟩
  rintro (⟨a, returned⟩ | ⟨waits, -⟩)
  · have locked := final.locked
    rw [returned] at locked
    cases locked
  · cases waits

/-- A session whose ends wait for each other in step can run into that. -/
theorem lock_waiting {p : Proc T α} {q : Proc T β} (h : lock loop p q = .waiting) :
    ∃ cfg, Reaches loop (Config.start p q) cfg ∧ Starved loop cfg := by
  have free : (Outcome.waiting : Outcome T α β) ≠ .blocked := by simp
  have start : Pending loop .waiting (Config.start p q) [] [] := ⟨rfl, rfl, rfl, rfl, h⟩
  obtain ⟨done, ns', run, final, ended⟩ := start.completes _ free rfl
  refine ⟨done, run, ?_⟩
  have locked := final.locked
  rcases ended with halted | ⟨a, returned⟩ | ⟨-, starved⟩
  · rw [halted] at locked
    cases locked
  · rw [returned] at locked
    cases locked
  · exact starved

omit [DecidableEq T] in
theorem not_inStep_of_halted {start : Config T α β} {a : α} {b : β} (run : Reaches loop start cfg)
    (halted : cfg.client = .halt) : ¬ InStep loop start a b := by
  intro step
  obtain ⟨_, _, done, rest, finished⟩ := step cfg run
  have still : done.client = .halt := by
    clear finished
    induction rest with
    | refl => exact halted
    | tail _ last ih =>
        cases last with
        | clientSend h => cases ih.symm.trans h
        | clientRecv h _ => cases ih.symm.trans h
        | clientWake h _ => cases ih.symm.trans h
        | serverSend h => exact ih
        | serverRecv h _ => exact ih
        | serverWake h _ => exact ih
  rw [finished.client] at still
  cases still

omit [DecidableEq T] in
/-- Nobody takes a step any more. -/
theorem Starved.stuck (starved : Starved loop cfg) : ¬ Step loop cfg cfg' := by
  obtain ⟨⟨tag, size, k, client⟩, ⟨tag', size', k', server⟩, toServer, toClient⟩ := starved
  intro taken
  cases taken with
  | clientSend h => cases client.symm.trans h
  | serverSend h =>
      rw [h] at server
      cases server
  | @clientRecv k rest m h taken => exact m.nonempty (List.append_eq_nil_iff.mp (taken.symm.trans toClient)).1
  | @serverRecv k rest m h taken => exact m.nonempty (List.append_eq_nil_iff.mp (taken.symm.trans toServer)).1
  | clientWake h ready => exact ready toClient
  | serverWake h ready => exact ready toServer

end Asynchronous
end Duplex
