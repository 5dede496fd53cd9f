import NetworkOs.Library.Duplex

/-! Rules for sessions in step. `Meets` relates the rest of a program on each end to the
partial function that computes both results at once; its rules follow the messages. -/
namespace Duplex
variable {T α β γ δ σ : Type}

/-- The session cannot come to rest any more. -/
def Outcome.Dead : Outcome T α β → Prop
  | .finished _ .halt => True
  | .finished _ _ => False
  | .halted => True
  | .waiting => True
  | .blocked => True

/-- Both results of a session that came to rest. -/
def Outcome.result : Outcome T α β → Option (α × β)
  | .finished a (.ret b) => some (a, b)
  | _ => none

def Outcome.isHalted : Outcome T α β → Bool
  | .halted => true
  | _ => false

theorem Outcome.eq_halted {r : Outcome T α β} (h : r.isHalted = true) : r = .halted := by
  cases r with
  | halted => rfl
  | finished a q => cases h
  | waiting => cases h
  | blocked => cases h

def Outcome.isWaiting : Outcome T α β → Bool
  | .waiting => true
  | _ => false

theorem Outcome.eq_waiting {r : Outcome T α β} (h : r.isWaiting = true) : r = .waiting := by
  cases r with
  | waiting => rfl
  | finished a q => cases h
  | halted => cases h
  | blocked => cases h

/-- The session comes to rest with the results `o`, or is dead. -/
def Outcome.Yields (r : Outcome T α β) : Option (α × β) → Prop
  | some x => r = .finished x.1 (.ret x.2)
  | none => r.Dead

theorem Outcome.Yields.result {r : Outcome T α β} {o : Option (α × β)} (h : r.Yields o) : r.result = o := by
  cases o with
  | some x =>
      change r = _ at h
      exact h ▸ rfl
  | none =>
      cases r with
      | halted => rfl
      | waiting => rfl
      | blocked => rfl
      | finished a q =>
          cases q with
          | ret b => exact False.elim h
          | send m k => rfl
          | recv tag size k => rfl
          | halt => rfl

/-- A step without messages that can end the process. -/
def Proc.ofOption : Option α → Proc T α
  | some a => pure a
  | none => halt

/-- What is left of a program when the other end has gone: a `recv` returns no bytes, and
what is sent is lost. -/
def Proc.alone : Proc T α → Option α
  | .ret a => some a
  | .send _ k => alone k
  | .recv _ _ k => alone (k [])
  | .halt => none

namespace Proc

@[simp] theorem alone_pure (a : α) : (pure a : Proc T α).alone = some a := rfl

theorem alone_bind (p : Proc T α) (f : α → Proc T β) : (p >>= f).alone = p.alone.bind fun a => (f a).alone := by
  induction p with
  | ret a => rfl
  | send m k ih => exact ih
  | recv tag size k ih => exact ih []
  | halt => rfl

@[simp] theorem alone_sendBytes (tag : T) (bytes : List UInt8) (f : Unit → Proc T α) :
    (sendBytes tag bytes >>= f).alone = (f ()).alone := by
  rw [alone_bind, sendBytes]
  split_ifs <;> rfl

@[simp] theorem alone_recvBytes (tag : T) (size : Nat) (f : List UInt8 → Proc T α) :
    (recvBytes tag size >>= f).alone = (f []).alone := rfl

@[simp] theorem alone_ofOption (o : Option α) : (ofOption o : Proc T α).alone = o := by
  cases o <;> rfl

end Proc

variable [DecidableEq T] {loop : Loop T σ}

theorem lock_halt_dead (p : Proc T α) : (lock loop p .halt).Dead := by
  cases p with
  | ret a => trivial
  | send m k => trivial
  | recv tag size k => trivial
  | halt => trivial

/-- Nothing that the client does next revives a dead session. -/
theorem Outcome.Dead.andThen {r : Outcome T α σ} (h : r.Dead) (f : α → Proc T γ) :
    (r.andThen fun a q => lock loop (f a) q).Dead := by
  cases r with
  | halted => trivial
  | waiting => trivial
  | blocked => trivial
  | finished a q =>
      cases q with
      | halt => exact lock_halt_dead (f a)
      | ret b => exact False.elim h
      | send m k => exact False.elim h
      | recv tag size k => exact False.elim h

/-- Whatever follows on both ends, the parts `p` and `q` lead to `o`. -/
def Meets (loop : Loop T σ) (p : Proc T α) (q : Proc T β) (o : Option (α × β)) : Prop :=
  ∀ (γ : Type) (k : α → Proc T γ) (kq : β → Proc T σ),
    match o with
    | some x => lock loop (p >>= k) (q >>= kq) = lock loop (k x.1) (kq x.2)
    | none => (lock loop (p >>= k) (q >>= kq)).Dead

namespace Meets
variable {f : List UInt8 → Proc T α} {g : Unit → Proc T β} {f' : Unit → Proc T α}
  {g' : List UInt8 → Proc T β} {o : Option (α × β)} {tag : T} {bytes : List UInt8} {size : Nat}

theorem done (a : α) (b : β) : Meets loop (pure a) (pure b) (some (a, b)) := fun _ _ _ => rfl

theorem halt_client (q : Proc T β) : Meets loop (.halt : Proc T α) q none := fun _ _ _ => trivial

theorem halt_server (p : Proc T α) : Meets loop p (.halt : Proc T β) none := fun _ _ _ => lock_halt_dead _

theorem option_client (o : Option α) {f : α → Proc T γ} {q : Proc T β} {h : α → Option (γ × β)}
    (rest : ∀ a, Meets loop (f a) q (h a)) : Meets loop (Proc.ofOption o >>= f) q (o.bind h) := by
  cases o with
  | none => exact halt_client q
  | some a => exact rest a

theorem option_server (o : Option β) {p : Proc T α} {g : β → Proc T γ} {h : β → Option (α × γ)}
    (rest : ∀ b, Meets loop p (g b) (h b)) : Meets loop p (Proc.ofOption o >>= g) (o.bind h) := by
  cases o with
  | none => exact halt_server p
  | some b => exact rest b

theorem recv_send (length : bytes.length = size) (positive : 0 < size) (rest : Meets loop (f bytes) (g ()) o) :
    Meets loop (Proc.recvBytes tag size >>= f) (Proc.sendBytes tag bytes >>= g) o := by
  intro γ k kq
  rw [Proc.bind_assoc, Proc.bind_assoc, lock_recv_send tag length positive]
  exact rest γ k kq

theorem send_recv (length : bytes.length = size) (positive : 0 < size) (rest : Meets loop (f' ()) (g' bytes) o) :
    Meets loop (Proc.sendBytes tag bytes >>= f') (Proc.recvBytes tag size >>= g') o := by
  intro γ k kq
  rw [Proc.bind_assoc, Proc.bind_assoc, lock_send_recv tag length positive]
  exact rest γ k kq

/-- Each end waits for the other. -/
theorem recv_recv {tag' : T} {size' : Nat} :
    Meets loop (Proc.recvBytes tag size >>= f) (Proc.recvBytes tag' size' >>= g') none := fun _ _ _ => trivial

/-- The client sends less than the other end waits for, or nothing where that asks for nothing, and
waits for the answer. -/
theorem send_short {tag' : T} {size' : Nat} (short : bytes.length < size ∨ bytes = []) :
    Meets loop (Proc.sendBytes tag bytes >>= fun _ => Proc.recvBytes tag' size' >>= f)
      (Proc.recvBytes tag size >>= g') none := by
  by_cases empty : bytes = []
  · subst empty
    exact recv_recv
  · intro γ k kq
    rw [Proc.sendBytes, dif_neg empty]
    change (if tag = tag ∧ bytes.length = size then _ else Outcome.blocked).Dead
    rw [if_neg fun fits => (short.resolve_right empty).ne fits.2]
    trivial

theorem bind {p : Proc T α} {q : Proc T β} {f : α → Proc T γ} {g : β → Proc T δ}
    {h : α × β → Option (γ × δ)} (first : Meets loop p q o) (rest : ∀ a b, Meets loop (f a) (g b) (h (a, b))) :
    Meets loop (p >>= f) (q >>= g) (o.bind h) := by
  intro ε k kq
  rw [Proc.bind_assoc, Proc.bind_assoc]
  cases o with
  | none => exact first ε _ _
  | some x =>
      have met : lock loop (p >>= fun a => f a >>= k) (q >>= fun b => g b >>= kq) =
          lock loop (f x.1 >>= k) (g x.2 >>= kq) := first ε _ _
      rw [met]
      exact rest x.1 x.2 ε k kq

theorem request {k : Unit → Proc T α} {b : σ} {o : Option (α × σ)} (length : bytes.length = loop.size)
    (h : Meets loop (k ()) (loop.handle b bytes) o) :
    (lock loop (Proc.sendBytes loop.tag bytes >>= k) (pure b)).Yields o := by
  rw [lock_send_loop length]
  have met := h α pure pure
  rw [Proc.bind_pure, Proc.bind_pure] at met
  cases o with
  | none => exact met
  | some x => exact met

end Meets

theorem Outcome.Yields.bind {p : Proc T α} {f : α → Proc T γ} {b : σ} {o : Option (α × σ)}
    {h : α × σ → Option (γ × σ)} (first : (lock loop p (pure b)).Yields o)
    (rest : ∀ a b, (lock loop (f a) (pure b)).Yields (h (a, b))) :
    (lock loop (p >>= f) (pure b)).Yields (o.bind h) := by
  rw [lock_bind]
  cases o with
  | none => exact Outcome.Dead.andThen first f
  | some x =>
      have met : lock loop p (pure b) = .finished x.1 (.ret x.2) := first
      rw [met]
      exact rest x.1 x.2

end Duplex
