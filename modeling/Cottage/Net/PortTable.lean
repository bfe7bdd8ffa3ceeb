import Cottage.Net.Sendto

/-!
# The UDP port table under concurrent calls

Threads that call `sys_socket`, `sys_bind` and `sys_sendto`, with every access
to the table, to a socket and to the lock of the table as a step of its own.
Of `sys_sendto` only the choice of a port for a socket without one matters
here; the part of a call before the descriptor is known to be a socket, and a
call that ends there, has no step.

`sys_bind` looks at the state of the socket before it takes the lock, and
`sys_sendto` does not take it at all.
-/

namespace Cottage.PortTable

open Net Transition Function

/-- The fields of a `socket_resource_t` that the calls use. -/
structure Socket where
  state : SockState
  localAddr : NetAddr
  deriving DecidableEq, Repr

def Socket.new : Socket where
  state := .closed
  localAddr := ⟨0, 0, 0⟩

def Socket.port (socket : Socket) : UInt16 :=
  ntohs socket.localAddr.port

/-- What a thread does next.  `bindTest` to `bindUnlock` hold the lock. -/
inductive Pc
  | idle
  | bindCheck (socket : ℕ) (addr : NetAddr)
  | bindLock (socket : ℕ) (addr : NetAddr)
  | bindTest (socket : ℕ) (addr : NetAddr)
  | bindAddr (socket : ℕ) (addr : NetAddr)
  | bindTable (socket : ℕ) (addr : NetAddr)
  | bindState (socket : ℕ) (addr : NetAddr)
  | bindUnlock (socket : ℕ)
  | sendPort (socket : ℕ)
  | sendScan (socket : ℕ) (start : ℕ) (i : ℕ)
  | sendAddr (socket : ℕ) (port : UInt16)
  | sendState (socket : ℕ) (port : UInt16)
  | sendTable (socket : ℕ) (port : UInt16)
  deriving DecidableEq, Repr

structure State (T : Type) where
  udpPortTable : UInt16 → Option ℕ
  sockets : ℕ → Socket
  socketCount : ℕ
  udpPortTableLock : Bool
  pc : T → Pc

/-- A call begins, or a thread takes its next step; `random` is what
`cpu_rdrand32` returns, if it is asked. -/
inductive Event (T : Type)
  | socket (t : T)
  | bind (t : T) (socket : ℕ) (addr : NetAddr)
  | sendto (t : T) (socket : ℕ)
  | move (t : T) (random : UInt32)
  deriving DecidableEq, Repr

def portRange : ℕ := ephemeralPortMax - ephemeralPortMin + 1

/-- The port that `get_next_ephemeral_port` looks at in turn `i`. -/
def candidate (start i : ℕ) : UInt16 :=
  UInt16.ofNat (ephemeralPortMin + (start - ephemeralPortMin + i) % portRange)

variable {T : Type} [DecidableEq T]

def State.setPc (s : State T) (t : T) (pc : Pc) : State T :=
  { s with pc := update s.pc t pc }

def State.setSocket (s : State T) (x : ℕ) (socket : Socket) : State T :=
  { s with sockets := update s.sockets x socket }

def State.setEntry (s : State T) (port : UInt16) (x : ℕ) : State T :=
  { s with udpPortTable := update s.udpPortTable port (some x) }

def State.setLock (s : State T) (held : Bool) : State T :=
  { s with udpPortTableLock := held }

/-- The next step of thread `t`; `none` while it waits for the lock or is not
in a call. -/
def move (s : State T) (t : T) (random : UInt32) : Option (State T) :=
  match s.pc t with
  | .idle => none
  | .bindCheck x addr =>
    if (s.sockets x).state = .bound then some (s.setPc t .idle)
    else some (s.setPc t (.bindLock x addr))
  | .bindLock x addr =>
    if s.udpPortTableLock then none else some ((s.setLock true).setPc t (.bindTest x addr))
  | .bindTest x addr =>
    if (s.udpPortTable (ntohs addr.port)).isSome then some (s.setPc t (.bindUnlock x))
    else some (s.setPc t (.bindAddr x addr))
  | .bindAddr x addr =>
    some ((s.setSocket x { s.sockets x with localAddr := addr }).setPc t (.bindTable x addr))
  | .bindTable x addr =>
    some ((s.setEntry (ntohs addr.port) x).setPc t (.bindState x addr))
  | .bindState x _ =>
    some ((s.setSocket x { s.sockets x with state := .bound }).setPc t (.bindUnlock x))
  | .bindUnlock _ => some ((s.setLock false).setPc t .idle)
  | .sendPort x =>
    if (s.sockets x).port = 0 then
      some (s.setPc t (.sendScan x (ephemeralPortMin + random.toNat % portRange) 0))
    else some (s.setPc t .idle)
  | .sendScan x start i =>
    if i < portRange then
      if (s.udpPortTable (candidate start i)).isNone then
        some (s.setPc t (.sendAddr x (candidate start i)))
      else some (s.setPc t (.sendScan x start (i + 1)))
    else some (s.setPc t .idle)
  | .sendAddr x port =>
    some ((s.setSocket x { s.sockets x with
      localAddr := { (s.sockets x).localAddr with port := htons port } }).setPc t
        (.sendState x port))
  | .sendState x port =>
    some ((s.setSocket x { s.sockets x with state := .bound }).setPc t (.sendTable x port))
  | .sendTable x port => some ((s.setEntry port x).setPc t .idle)

def step (s : State T) : Event T → Option (State T)
  | .socket t =>
    if s.pc t = .idle then
      some { s.setSocket s.socketCount Socket.new with socketCount := s.socketCount + 1 }
    else none
  | .bind t x addr =>
    if s.pc t = .idle ∧ x < s.socketCount then some (s.setPc t (.bindCheck x addr)) else none
  | .sendto t x =>
    if s.pc t = .idle ∧ x < s.socketCount then some (s.setPc t (.sendPort x)) else none
  | .move t random => move s t random

def Initial (s : State T) : Prop :=
  (∀ port, s.udpPortTable port = none) ∧ s.socketCount = 0 ∧ s.udpPortTableLock = false ∧
    (∀ x, (s.sockets x).state = .closed) ∧ ∀ t, s.pc t = .idle

variable (T) in
def system : System (State T) (Event T) where
  init := Initial
  step := step

def State.Quiet (s : State T) : Prop :=
  ∀ t, s.pc t = .idle

structure Consistent (s : State T) : Prop where
  unique : ∀ p p' x, s.udpPortTable p = some x → s.udpPortTable p' = some x → p = p'
  entry_bound : ∀ p x, s.udpPortTable p = some x →
    (s.sockets x).state = .bound ∧ (s.sockets x).localAddr.port = htons p
  bound_entry : ∀ x < s.socketCount, (s.sockets x).state = .bound →
    s.udpPortTable (s.sockets x).port = some x

/-- The socket and the port that a thread is entering: the address of the socket
is written, and not yet both of the table and its state. -/
def Pc.entering : Pc → Option (ℕ × UInt16)
  | .bindTable x addr => some (x, ntohs addr.port)
  | .bindState x addr => some (x, ntohs addr.port)
  | .sendState x port => some (x, port)
  | .sendTable x port => some (x, port)
  | _ => none

/-- The socket is not bound, the port is free, and no thread is entering
either of them. -/
def State.Free (s : State T) (x : ℕ) (p : UInt16) : Prop :=
  (s.sockets x).state = .closed ∧ s.udpPortTable p = none ∧
    ∀ t, ∀ e ∈ (s.pc t).entering, e.1 ≠ x ∧ e.2 ≠ p

/-- The socket and the port of which a thread is about to write the address. -/
def Pc.claims : Pc → Option (ℕ × UInt16)
  | .bindAddr x addr => some (x, ntohs addr.port)
  | .sendAddr x port => some (x, port)
  | _ => none

/-- A thread writes the address of a socket only while socket and port are
free. -/
def Undisturbed (s : State T) : Event T → Prop
  | .move t _ => ∀ e ∈ (s.pc t).claims, s.Free e.1 e.2
  | _ => True

/-! ## A small configuration -/

def boot : State (Fin 1) where
  udpPortTable := fun _ => none
  sockets := fun _ => Socket.new
  socketCount := 0
  udpPortTableLock := false
  pc := fun _ => .idle

lemma boot_initial : Initial boot :=
  ⟨fun _ => rfl, rfl, rfl, fun _ => rfl, fun _ => rfl⟩

instance (s : State (Fin 1)) : Decidable s.Quiet :=
  inferInstanceAs (Decidable (∀ _, _))

instance (s : State (Fin 1)) (x : ℕ) (p : UInt16) : Decidable (s.Free x p) :=
  inferInstanceAs (Decidable (_ ∧ _ ∧ ∀ _, ∀ _ ∈ _, _))

instance (s : State (Fin 1)) (a : Event (Fin 1)) : Decidable (Undisturbed s a) :=
  match a with
  | .move _ _ => inferInstanceAs (Decidable (∀ _ ∈ _, _))
  | .socket _ => .isTrue trivial
  | .bind _ _ _ => .isTrue trivial
  | .sendto _ _ => .isTrue trivial

end Cottage.PortTable
