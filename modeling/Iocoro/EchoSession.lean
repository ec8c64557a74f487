/-
The sessions of the round trip benchmark: a client writes a line and reads until the end
of the line that comes back, a server reads a line and writes it back.  Each side starts
its reads at the front of its buffer and drops what it may have read behind a line.  Over
sockets that transfer any part of what they could, both sides get whole lines.
-/
import Mathlib
import Iocoro.TransitionSystem
import Iocoro.TransferAll

universe u

namespace Iocoro

namespace EchoSession

open ReadUntil (copyTo findByteInSpan)

/-- `bench_state`, with the number of bytes that a socket keeps for its peer. -/
structure Bench where
  msgsPerSession : Nat
  msg : List UInt8
  ioBufferSize : Nat
  capacity : Nat

/-- `'\n'` -/
def newline : UInt8 := 10

/-- What `main` makes of its arguments; `'x'` is 120. -/
def Bench.ofArgs (msgs msgBytes capacity : Nat) : Bench :=
  let msg := List.replicate (msgBytes - 1) 120 ++ [newline]
  { msgsPerSession := msgs, msg, ioBufferSize := max 4096 (msg.length * 2), capacity }

/-- Where the coroutine of a session is suspended: in `async_write` after this many bytes
of the data, or in `async_read_until`. -/
inductive Call where
  | write (data : List UInt8) (offset : Nat)
  | read (currentSize searchFrom : Nat)
  | returned
deriving DecidableEq, Repr

/-- `lines` is what the calls of `async_read_until` have returned. -/
structure Session where
  call : Call
  round : Nat := 0
  buffer : List UInt8
  lines : List (List UInt8) := []

/-- What one transfer makes of the call. -/
inductive Progress where
  | more (call : Call)
  | wrote
  | line (n : Nat)
  | failed
deriving DecidableEq, Repr

/-- One turn of the loop of `async_write`. -/
def writeTurn (data : List UInt8) (offset n : Nat) : Progress :=
  if offset + n = data.length then .wrote else .more (.write data (offset + n))

/-- One turn of the loop of `async_read_until`. -/
def readTurn (buffer : List UInt8) (currentSize searchFrom : Nat) (chunk : List UInt8) :
    Progress × List UInt8 :=
  let buffer' := copyTo buffer chunk currentSize
  let currentSize' := currentSize + chunk.length
  match findByteInSpan ((buffer'.take currentSize').drop searchFrom) newline with
  | some pos => (.line (searchFrom + pos + 1), buffer')
  | none =>
      (if currentSize' < buffer.length then .more (.read currentSize' currentSize')
        else .failed, buffer')

/-- The two sockets of a session; each keeps what its peer has not read yet. -/
structure Pair where
  client : Session
  server : Session
  toServer : List UInt8 := []
  toClient : List UInt8 := []

/-- The call with its socket moves `n` bytes; a read of no byte is the end of the stream. -/
def Session.transfer (s : Session) (capacity : Nat) (peerClosed : Bool)
    (incoming outgoing : List UInt8) (n : Nat) :
    Option (Progress × List UInt8 × List UInt8 × List UInt8) :=
  match s.call with
  | .write data offset =>
      if 0 < n ∧ n ≤ data.length - offset ∧ outgoing.length + n ≤ capacity then
        some (writeTurn data offset n, s.buffer, incoming,
          outgoing ++ (data.drop offset).take n)
      else none
  | .read currentSize searchFrom =>
      if 0 < n ∧ n ≤ s.buffer.length - currentSize ∧ n ≤ incoming.length then
        let (progress, buffer) := readTurn s.buffer currentSize searchFrom (incoming.take n)
        some (progress, buffer, incoming.drop n, outgoing)
      else if n = 0 ∧ incoming = [] ∧ peerClosed = true then
        some (.failed, s.buffer, incoming, outgoing)
      else none
  | .returned => none

/-- The call of `async_write`, which returns at once where there is nothing to write. -/
def asyncWrite (data : List UInt8) : Progress :=
  if data.isEmpty then .wrote else .more (.write data 0)

/-- The call of `async_read_until`, for a buffer of any size. -/
def asyncReadUntil (buffer : List UInt8) : Progress :=
  if buffer.isEmpty then .failed else .more (.read 0 0)

def Session.suspend (s : Session) : Progress → Option Session
  | .more call => some { s with call }
  | _ => none

def Bench.clientRound (b : Bench) (s : Session) : Option Session :=
  if s.round < b.msgsPerSession then
    match asyncWrite b.msg with
    | .wrote => s.suspend (asyncReadUntil s.buffer)
    | progress => s.suspend progress
  else some { s with call := .returned }

/-- `client_session` goes on; without a session it has called `fail_and_stop`. -/
def Bench.clientSession (b : Bench) (s : Session) : Progress → Option Session
  | .more call => some { s with call }
  | .wrote => s.suspend (asyncReadUntil s.buffer)
  | .line n => b.clientRound { s with
      round := s.round + 1
      lines := s.lines ++ [s.buffer.take n] }
  | .failed => none

def Bench.echoRound (b : Bench) (s : Session) : Option Session :=
  if s.round < b.msgsPerSession then s.suspend (asyncReadUntil s.buffer)
  else some { s with call := .returned }

/-- `echo_session` goes on. -/
def Bench.echoSession (b : Bench) (s : Session) : Progress → Option Session
  | .more call => some { s with call }
  | .wrote => b.echoRound { s with round := s.round + 1 }
  | .line n =>
      let s' := { s with lines := s.lines ++ [s.buffer.take n] }
      match asyncWrite (s.buffer.take n) with
      | .wrote => b.echoRound { s' with round := s.round + 1 }
      | progress => s'.suspend progress
  | .failed => none

def Session.closed (s : Session) : Bool := s.call == .returned

/-- `none` inside is a call of `fail_and_stop`. -/
def Bench.clientStep (b : Bench) (p : Pair) (n : Nat) : Option (Option Pair) :=
  (p.client.transfer b.capacity p.server.closed p.toClient p.toServer n).map
    fun (progress, buffer, toClient, toServer) =>
      (b.clientSession { p.client with buffer } progress).map fun client =>
        { p with client, toClient, toServer }

def Bench.echoStep (b : Bench) (p : Pair) (n : Nat) : Option (Option Pair) :=
  (p.server.transfer b.capacity p.client.closed p.toServer p.toClient n).map
    fun (progress, buffer, toServer, toClient) =>
      (b.echoSession { p.server with buffer } progress).map fun server =>
        { p with server, toServer, toClient }

/-- The sessions of one run, on one event loop. -/
structure State (sessions : Nat) where
  pairs : Fin sessions → Pair
  remaining : Nat := sessions
  stopped : Bool := false
  failed : Bool := false

/-- A side goes on by `n` bytes, or its stream gives an error. -/
inductive Action (sessions : Nat) where
  | client (i : Fin sessions) (n : Nat)
  | server (i : Fin sessions) (n : Nat)
  | error (i : Fin sessions)

variable {sessions : Nat}

def State.failAndStop (s : State sessions) : State sessions :=
  { s with failed := true, stopped := true }

def State.setPair (s : State sessions) (i : Fin sessions) (p : Pair) : State sessions :=
  { s with pairs := Function.update s.pairs i p }

/-- The client that ends last stops the loop. -/
def State.leave (s : State sessions) (p : Pair) : State sessions :=
  if p.client.closed = true then
    { s with remaining := s.remaining - 1, stopped := s.remaining == 1 }
  else s

def step (b : Bench) (s : State sessions) (a : Action sessions) : Option (State sessions) :=
  if s.stopped = true then none
  else
    match a with
    | .client i n => (b.clientStep (s.pairs i) n).map fun
        | some p => (s.setPair i p).leave p
        | none => s.failAndStop
    | .server i n => (b.echoStep (s.pairs i) n).map fun
        | some p => s.setPair i p
        | none => s.failAndStop
    | .error _ => some s.failAndStop

/-- Each side has entered its first call. -/
def Bench.connected (b : Bench) : Pair where
  client := { call := .write b.msg 0, buffer := List.replicate b.ioBufferSize 0 }
  server := { call := .read 0 0, buffer := List.replicate b.ioBufferSize 0 }

def system (b : Bench) (sessions : Nat) :
    TransitionSystem (State sessions) (Action sessions) where
  start := { pairs := fun _ => b.connected }
  step := step b

/-- The streams give no error. -/
def Action.transfers : Action sessions → Prop
  | .error _ => False
  | _ => True

instance (a : Action sessions) : Decidable a.transfers :=
  match a with
  | .client _ _ | .server _ _ => isTrue trivial
  | .error _ => isFalse id

/-- There is a message to send, it is one line, it fits into the buffers, and a socket
keeps some bytes. -/
structure Bench.Framed (b : Bench) : Prop where
  rounds : 0 < b.msgsPerSession
  line : ∃ body, b.msg = body ++ [newline] ∧ newline ∉ body
  fits : b.msg.length ≤ b.ioBufferSize
  room : 0 < b.capacity

/-! ### The turns of the loops -/

theorem length_copyTo {buffer chunk : List UInt8} {c : Nat}
    (hfits : c + chunk.length ≤ buffer.length) :
    (copyTo buffer chunk c).length = buffer.length := by
  rw [copyTo, List.length_append, List.length_append, List.length_take, List.length_drop]
  omega

/-- What the call makes of a chunk is one turn of the loop of `async_read_until`. -/
theorem readTurn_loop {Ec : Type u} (stream : ReadUntil.Stream Ec)
    {buffer chunk : List UInt8} {currentSize searchFrom : Nat} {reads : List Nat}
    {hchunk : chunk ≠ []} {hfits : chunk.length ≤ (buffer.drop currentSize).length}
    (hspace : currentSize < buffer.length)
    (hread : stream reads.length (buffer.drop currentSize).length =
      .bytes chunk hchunk hfits) (fuel : Nat) :
    ReadUntil.Char.loop stream newline (fuel + 2) buffer currentSize searchFrom reads =
      match readTurn buffer currentSize searchFrom chunk with
      | (.line n, buffer') =>
          some (⟨.ok n, reads ++ [(buffer.drop currentSize).length]⟩, buffer')
      | (.more (.read size start), buffer') =>
          ReadUntil.Char.loop stream newline (fuel + 1) buffer' size start
            (reads ++ [(buffer.drop currentSize).length])
      | (_, buffer') =>
          some (⟨.error .messageSize, reads ++ [(buffer.drop currentSize).length]⟩, buffer') := by
  rw [List.length_drop] at hfits
  have hlength : (copyTo buffer chunk currentSize).length = buffer.length :=
    length_copyTo (by omega)
  rw [ReadUntil.Char.loop, if_pos hspace]
  simp only [hread, readTurn]
  cases findByteInSpan (((copyTo buffer chunk currentSize).take
      (currentSize + chunk.length)).drop searchFrom) newline with
  | some pos => rfl
  | none =>
      by_cases hmore : currentSize + chunk.length < buffer.length
      · simp only [if_pos hmore]
      · simp only [if_neg hmore]
        rw [ReadUntil.Char.loop, hlength, if_neg hmore]

/-- What the call makes of an accepted part is one turn of the loop of `async_write`. -/
theorem writeTurn_loop {Ec : Type u} (stream : TransferAll.WriteStream Ec)
    {data received : List UInt8} {offset n : Nat} {requests : List Nat}
    {hpos : 0 < n} {hfits : n ≤ (data.drop offset).length}
    (hwrite : stream requests.length (data.drop offset) = .accepted n hpos hfits)
    (fuel : Nat) :
    TransferAll.loop (TransferAll.writeRequest stream data) .brokenPipe data.length
        (fuel + 2) offset received requests =
      match writeTurn data offset n with
      | .more (.write _ offset') =>
          TransferAll.loop (TransferAll.writeRequest stream data) .brokenPipe data.length
            (fuel + 1) offset' (received ++ (data.drop offset).take n)
            (requests ++ [data.length - offset])
      | _ => some (⟨.ok data.length, requests ++ [data.length - offset]⟩,
          received ++ (data.drop offset).take n) := by
  rw [List.length_drop] at hfits
  have hleft : data.length - offset ≠ 0 := by omega
  have hzero : n ≠ 0 := Nat.ne_of_gt hpos
  rw [TransferAll.loop, if_neg hleft]
  simp only [TransferAll.writeRequest, hwrite, if_neg hzero, writeTurn]
  by_cases hall : offset + n = data.length
  · simp only [if_pos hall]
    rw [TransferAll.loop, hall, Nat.sub_self, if_pos rfl]
  · simp only [if_neg hall]

end EchoSession

end Iocoro
