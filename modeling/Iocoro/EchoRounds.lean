/-
The rounds of an echo session: a line is on its way to the server or on its way back, and
each step moves some more of it.  So every session gets its lines, and comes to an end.
-/
import Mathlib
import Iocoro.EchoSession

namespace Iocoro

namespace EchoSession

open ReadUntil (copyTo findByteInSpan)

variable {sessions : Nat}

/-! ### Parts of the line -/

/-- The bytes of the line from `c` up to `o`. -/
def slice (m : List UInt8) (c o : Nat) : List UInt8 := (m.take o).drop c

variable {m buffer : List UInt8} {c o n : Nat}

theorem slice_self (m : List UInt8) (c : Nat) : slice m c c = [] :=
  List.drop_eq_nil_of_le (List.length_take_le _ _)

theorem slice_length (ho : o ≤ m.length) : (slice m c o).length = o - c := by
  rw [slice, List.length_drop, List.length_take, Nat.min_eq_left ho]

theorem slice_snoc (hco : c ≤ o) (ho : o ≤ m.length) :
    slice m c o ++ (m.drop o).take n = slice m c (o + n) := by
  rw [slice, slice, List.take_add, List.drop_append_of_le_length]
  rw [List.length_take, Nat.min_eq_left ho]
  exact hco

theorem slice_drop (m : List UInt8) (c o n : Nat) :
    (slice m c o).drop n = slice m (c + n) o := by
  rw [slice, List.drop_drop, slice]

theorem slice_take (hn : c + n ≤ o) : (slice m c o).take n = slice m c (c + n) := by
  rw [slice, slice, List.take_drop, List.take_take, Nat.min_eq_left hn]

/-- A read puts the next bytes of the line behind those that are in the buffer. -/
theorem take_copyTo (hbuffer : buffer.take c = m.take c) (hc : c ≤ m.length)
    (hn : c + n ≤ m.length) :
    (copyTo buffer (slice m c (c + n)) c).take (c + n) = m.take (c + n) := by
  have hlength : (m.take c ++ slice m c (c + n)).length = c + n := by
    rw [List.length_append, List.length_take, slice_length hn]
    omega
  have hjoin : m.take c ++ slice m c (c + n) = m.take (c + n) := by
    have hfront : (m.take (c + n)).take c = m.take c := by
      rw [List.take_take, Nat.min_eq_left (Nat.le_add_right c n)]
    rw [slice, ← hfront, List.take_append_drop]
  rw [copyTo, hbuffer, List.take_left' hlength, hjoin]

/-- The end of the line is found when all of the line is there. -/
theorem find_newline {body : List UInt8} (hbody : newline ∉ body) (hc : c < body.length + 1)
    (hn : c + n ≤ body.length + 1) :
    findByteInSpan (((body ++ [newline]).take (c + n)).drop c) newline =
      if c + n = body.length + 1 then some (body.length - c) else none := by
  have hnone : ∀ k, (body.drop k).findIdx? (· == newline) = none := by
    intro k
    rw [List.findIdx?_eq_none_iff]
    intro x hx
    have hne : x ≠ newline := fun heq => hbody (heq ▸ List.mem_of_mem_drop hx)
    simpa using hne
  split
  · next hall =>
      have hlast : ((body ++ [newline]).take (c + n)).drop c = body.drop c ++ [newline] := by
        rw [List.take_of_length_le (by simp [hall]),
          List.drop_append_of_le_length (Nat.le_of_lt_succ hc)]
      rw [hlast, findByteInSpan, if_neg (by simp), List.findIdx?_append, hnone]
      simp
  · next hpart =>
      have hfront : ((body ++ [newline]).take (c + n)).drop c = (body.drop c).take n := by
        rw [List.take_append_of_le_length (by omega), List.drop_take, Nat.add_sub_cancel_left]
      rw [hfront, findByteInSpan]
      split
      · rfl
      · rw [List.findIdx?_eq_none_iff]
        intro x hx
        exact List.findIdx?_eq_none_iff.mp (hnone c) x (List.mem_of_mem_take hx)

/-! ### A transfer -/

variable {b : Bench} {s : Session} {incoming outgoing : List UInt8} {peerClosed : Bool}
  {r : Progress × List UInt8 × List UInt8 × List UInt8}

theorem transfer_write (hcall : s.call = .write b.msg o)
    (htransfer : s.transfer b.capacity peerClosed incoming outgoing n = some r) :
    0 < n ∧ o + n ≤ b.msg.length ∧
      r = (writeTurn b.msg o n, s.buffer, incoming, outgoing ++ (b.msg.drop o).take n) := by
  simp only [Session.transfer, hcall] at htransfer
  split at htransfer
  · next hn =>
      obtain rfl := Option.some.inj htransfer
      exact ⟨hn.1, by omega, rfl⟩
  · cases htransfer

theorem transfer_returned (hcall : s.call = .returned) :
    s.transfer b.capacity peerClosed incoming outgoing n = none := by
  simp only [Session.transfer, hcall]

/-- Nothing has come, and the peer is still there. -/
theorem transfer_idle (hcall : s.call = .read 0 0) :
    s.transfer b.capacity false [] outgoing n = none := by
  simp only [Session.transfer, hcall, List.length_nil, Bool.false_eq_true, and_false]
  rw [if_neg (by omega), if_neg id]

/-- A read of the line moves on, or returns the length of the whole line. -/
theorem transfer_read (hb : b.Framed) (hcall : s.call = .read c c)
    (hbuffer : s.buffer.take c = b.msg.take c) (hsize : s.buffer.length = b.ioBufferSize)
    (hc : c < b.msg.length) (hco : c ≤ o) (ho : o ≤ b.msg.length)
    (hopen : peerClosed = true → c < o)
    (htransfer : s.transfer b.capacity peerClosed (slice b.msg c o) outgoing n = some r) :
    0 < n ∧ c + n ≤ o ∧ ∃ buffer,
      r = (if c + n = b.msg.length then .line b.msg.length else .more (.read (c + n) (c + n)),
        buffer, slice b.msg (c + n) o, outgoing) ∧
      buffer.take (c + n) = b.msg.take (c + n) ∧ buffer.length = b.ioBufferSize := by
  have hlength := slice_length (c := c) ho
  have hfits := hb.fits
  simp only [Session.transfer, hcall] at htransfer
  split at htransfer
  · next hn =>
      obtain rfl := Option.some.inj htransfer
      have hle : c + n ≤ o := by omega
      have hchunk : (slice b.msg c o).take n = slice b.msg c (c + n) := slice_take hle
      have hchunkLength : (slice b.msg c (c + n)).length = n := by
        rw [slice_length (Nat.le_trans hle ho), Nat.add_sub_cancel_left]
      have htake := take_copyTo hbuffer (Nat.le_of_lt hc) (Nat.le_trans hle ho)
      refine ⟨hn.1, hle, copyTo s.buffer (slice b.msg c (c + n)) c, ?_, htake, ?_⟩
      · obtain ⟨body, hmsg, hbody⟩ := hb.line
        have hmsgLength : b.msg.length = body.length + 1 := by simp [hmsg]
        have hfind := find_newline hbody (hmsgLength ▸ hc)
          (hmsgLength ▸ Nat.le_trans hle ho)
        rw [← hmsg, ← htake] at hfind
        rw [slice_drop, hchunk]
        simp only [readTurn, hchunkLength, hfind]
        by_cases hall : c + n = body.length + 1
        · rw [if_pos hall, if_pos (hall.trans hmsgLength.symm)]
          have hpos : c + (body.length - c) + 1 = b.msg.length := by omega
          simp only [hpos]
        · have hpart : c + n ≠ b.msg.length := by omega
          have hspace : c + n < s.buffer.length := by omega
          rw [if_neg hall, if_neg hpart]
          simp only [hspace, ↓reduceIte]
      · rw [length_copyTo (by omega), hsize]
  · split at htransfer
    · next hend =>
        have hlt := hopen hend.2.2
        rw [hend.2.1, List.length_nil] at hlength
        omega
    · cases htransfer

/-! ### The phases of a round -/

def Bench.serverCall (b : Bench) (round : Nat) : Call :=
  if round < b.msgsPerSession then .read 0 0 else .returned

/-- The line is on its way to the server: the client has written `o` bytes of it, the
server has read `c`. -/
structure Up (b : Bench) (p : Pair) (k c o : Nat) : Prop where
  round : k < b.msgsPerSession
  read : c < b.msg.length
  order : c ≤ o
  written : o ≤ b.msg.length
  client : p.client.call = if o < b.msg.length then .write b.msg o else .read 0 0
  clientRound : p.client.round = k
  server : p.server.call = .read c c
  serverRound : p.server.round = k
  buffer : p.server.buffer.take c = b.msg.take c
  toServer : p.toServer = slice b.msg c o
  toClient : p.toClient = []
  serverLines : p.server.lines = List.replicate k b.msg

/-- The line is on its way back; once it is written the server goes on to the next round. -/
structure Down (b : Bench) (p : Pair) (k c o : Nat) : Prop where
  round : k < b.msgsPerSession
  read : c < b.msg.length
  order : c ≤ o
  written : o ≤ b.msg.length
  client : p.client.call = .read c c
  clientRound : p.client.round = k
  server : p.server.call = if o < b.msg.length then .write b.msg o else b.serverCall (k + 1)
  serverRound : p.server.round = if o < b.msg.length then k else k + 1
  buffer : p.client.buffer.take c = b.msg.take c
  toServer : p.toServer = []
  toClient : p.toClient = slice b.msg c o
  serverLines : p.server.lines = List.replicate (k + 1) b.msg

structure Ended (b : Bench) (p : Pair) : Prop where
  client : p.client.call = .returned
  clientRound : p.client.round = b.msgsPerSession
  server : p.server.call = .returned
  serverRound : p.server.round = b.msgsPerSession
  toServer : p.toServer = []
  toClient : p.toClient = []
  serverLines : p.server.lines = List.replicate b.msgsPerSession b.msg

inductive Phase (b : Bench) (p : Pair) : Prop
  | up {k c o : Nat} (hup : Up b p k c o)
  | down {k c o : Nat} (hdown : Down b p k c o)
  | ended (hended : Ended b p)

structure Tidy (b : Bench) (p : Pair) : Prop where
  phase : Phase b p
  clientSize : p.client.buffer.length = b.ioBufferSize
  serverSize : p.server.buffer.length = b.ioBufferSize
  clientLines : p.client.lines = List.replicate p.client.round b.msg

/-- The bytes that a call has moved in its round. -/
def Bench.clientMoved (b : Bench) : Call → Nat
  | .write _ offset => offset
  | .read currentSize _ => b.msg.length + currentSize
  | .returned => 0

def Bench.serverMoved (b : Bench) : Call → Nat
  | .write _ offset => b.msg.length + offset
  | .read currentSize _ => currentSize
  | .returned => 0

/-- The bytes that are still to be moved. -/
def Bench.work (b : Bench) (p : Pair) : Nat :=
  ((b.msgsPerSession - p.client.round) * (2 * b.msg.length) - b.clientMoved p.client.call) +
    ((b.msgsPerSession - p.server.round) * (2 * b.msg.length) - b.serverMoved p.server.call)

variable {p q : Pair} {k : Nat}

theorem Bench.Framed.msg_pos (hb : b.Framed) : 0 < b.msg.length := by
  obtain ⟨body, hmsg, -⟩ := hb.line
  simp [hmsg]

theorem Bench.Framed.asyncWrite (hb : b.Framed) :
    asyncWrite b.msg = .more (.write b.msg 0) := by
  have hne : b.msg ≠ [] := List.ne_nil_of_length_pos hb.msg_pos
  simp [EchoSession.asyncWrite, hne]

theorem Bench.Framed.asyncReadUntil (hb : b.Framed)
    (hsize : buffer.length = b.ioBufferSize) : asyncReadUntil buffer = .more (.read 0 0) := by
  have hpos := hb.msg_pos
  have hfits := hb.fits
  have hne : buffer ≠ [] := List.ne_nil_of_length_pos (by omega)
  simp [EchoSession.asyncReadUntil, hne]

theorem Bench.serverCall_eq (hb : b.Framed) (hsize : s.buffer.length = b.ioBufferSize) :
    b.echoRound s = some { s with call := b.serverCall s.round } := by
  rw [Bench.echoRound, Bench.serverCall]
  split
  · rw [hb.asyncReadUntil hsize]
    rfl
  · rfl

theorem closed_iff : s.closed = true ↔ s.call = .returned := beq_iff_eq

/-- The bytes that are left at the start of a round, for each side. -/
def Bench.left (b : Bench) (round : Nat) : Nat :=
  (b.msgsPerSession - round) * (2 * b.msg.length)

theorem Bench.left_succ (b : Bench) (hk : k < b.msgsPerSession) :
    b.left (k + 1) + 2 * b.msg.length = b.left k := by
  rw [Bench.left, Bench.left, ← Nat.succ_mul]
  congr 1
  omega

theorem Up.work (hp : Up b p k c o) : b.work p = (b.left k - o) + (b.left k - c) := by
  have hclient : b.clientMoved p.client.call = o := by
    rw [hp.client]
    split
    · rfl
    · next ho => exact Nat.le_antisymm (Nat.le_of_not_lt ho) hp.written
  rw [Bench.work, hclient, hp.clientRound, hp.serverRound, hp.server]
  rfl

theorem Down.work (hp : Down b p k c o) :
    b.work p = (b.left k - (b.msg.length + c)) + (b.left k - (b.msg.length + o)) := by
  have hserver : (b.msgsPerSession - p.server.round) * (2 * b.msg.length) -
      b.serverMoved p.server.call = b.left k - (b.msg.length + o) := by
    rw [hp.server, hp.serverRound]
    by_cases ho : o < b.msg.length
    · rw [if_pos ho, if_pos ho]
      rfl
    · have hall : o = b.msg.length := Nat.le_antisymm hp.written (Nat.le_of_not_lt ho)
      have hmoved : b.serverMoved (b.serverCall (k + 1)) = 0 := by
        rw [Bench.serverCall]
        split
        · rfl
        · rfl
      have hleft := b.left_succ hp.round
      rw [if_neg ho, if_neg ho, hmoved]
      change b.left (k + 1) - 0 = _
      omega
  rw [Bench.work, hserver, hp.client, hp.clientRound]
  rfl

theorem Ended.work (hp : Ended b p) : b.work p = 0 := by
  rw [Bench.work, hp.clientRound, hp.serverRound, Nat.sub_self, Nat.zero_mul, Nat.zero_sub,
    Nat.zero_sub]

/-- A step of a pair leaves a pair in order, with less to be moved. -/
def Advances (b : Bench) (p : Pair) (result : Option Pair) : Prop :=
  ∃ q, result = some q ∧ Tidy b q ∧ b.work q < b.work p

variable {result : Option Pair}

theorem Up.clientStep (hb : b.Framed) (hp : Tidy b p) (hup : Up b p k c o)
    (hstep : b.clientStep p n = some result) : Advances b p result := by
  obtain ⟨r, htransfer, rfl⟩ := Option.map_eq_some_iff.mp hstep
  by_cases ho : o < b.msg.length
  · obtain ⟨hn, hon, rfl⟩ := transfer_write (hup.client.trans (if_pos ho)) htransfer
    have hpipe : p.toServer ++ (b.msg.drop o).take n = slice b.msg c (o + n) := by
      rw [hup.toServer, slice_snoc hup.order hup.written]
    have hnext : b.clientSession p.client (writeTurn b.msg o n) = some { p.client with
        call := if o + n < b.msg.length then .write b.msg (o + n) else .read 0 0 } := by
      rw [writeTurn]
      by_cases hall : o + n = b.msg.length
      · rw [if_pos hall, if_neg (Nat.not_lt_of_le (Nat.le_of_eq hall.symm))]
        simp only [Bench.clientSession, hb.asyncReadUntil hp.clientSize, Session.suspend]
      · rw [if_neg hall, if_pos (Nat.lt_of_le_of_ne hon hall)]
        rfl
    have hup' : Up b { p with
        client := { p.client with
          call := if o + n < b.msg.length then .write b.msg (o + n) else .read 0 0 }
        toServer := slice b.msg c (o + n) } k c (o + n) :=
      { hup with
        order := Nat.le_trans hup.order (Nat.le_add_right o n)
        written := hon
        client := rfl
        toServer := rfl }
    refine ⟨_, ?_, ⟨.up hup', hp.clientSize, hp.serverSize, hp.clientLines⟩, ?_⟩
    · simp only [hpipe, hnext, Option.map_some]
    · have hleft := b.left_succ hup.round
      rw [hup.work, hup'.work]
      omega
  · have hopen : p.server.closed = false := by
      rw [Session.closed, hup.server]
      rfl
    rw [hup.toClient, hopen, transfer_idle (hup.client.trans (if_neg ho))] at htransfer
    cases htransfer

theorem Up.echoStep (hb : b.Framed) (hp : Tidy b p) (hup : Up b p k c o)
    (hstep : b.echoStep p n = some result) : Advances b p result := by
  obtain ⟨r, htransfer, rfl⟩ := Option.map_eq_some_iff.mp hstep
  have hopen : p.client.closed = true → c < o := by
    intro hclosed
    have hcall := hup.client.symm.trans (closed_iff.mp hclosed)
    split at hcall
    · cases hcall
    · cases hcall
  rw [hup.toServer] at htransfer
  obtain ⟨hn, hcn, buffer, rfl, htake, hsize⟩ := transfer_read hb hup.server hup.buffer
    hp.serverSize hup.read hup.order hup.written hopen htransfer
  have hleft := b.left_succ hup.round
  by_cases hall : c + n = b.msg.length
  · have ho : o = b.msg.length := Nat.le_antisymm hup.written (hall ▸ hcn)
    have hline : buffer.take b.msg.length = b.msg := by
      rw [← hall, htake, hall, List.take_length]
    have hdown : Down b { p with
        server := { p.server with
          call := .write b.msg 0
          buffer
          lines := p.server.lines ++ [b.msg] }
        toServer := slice b.msg (c + n) o } k 0 0 :=
      { round := hup.round
        read := hb.msg_pos
        order := Nat.le_refl 0
        written := Nat.zero_le _
        client := hup.client.trans (if_neg (Nat.not_lt_of_le (Nat.le_of_eq ho.symm)))
        clientRound := hup.clientRound
        server := (if_pos hb.msg_pos).symm
        serverRound := hup.serverRound.trans (if_pos hb.msg_pos).symm
        buffer := rfl
        toServer := by
          rw [hall, ho]
          exact slice_self ..
        toClient := hup.toClient.trans (slice_self ..).symm
        serverLines := by
          rw [hup.serverLines, List.replicate_succ'] }
    refine ⟨_, ?_, ⟨.down hdown, hp.clientSize, hsize, hp.clientLines⟩, ?_⟩
    · simp only [hall, ↓reduceIte, Bench.echoSession, hline, hb.asyncWrite, Session.suspend,
        Option.map_some]
    · rw [hup.work, hdown.work]
      have hread := hup.read
      omega
  · have hup' : Up b { p with
        server := { p.server with call := .read (c + n) (c + n), buffer }
        toServer := slice b.msg (c + n) o } k (c + n) o :=
      { hup with
        read := Nat.lt_of_le_of_ne (Nat.le_trans hcn hup.written) hall
        order := hcn
        server := rfl
        buffer := htake
        toServer := rfl }
    refine ⟨_, ?_, ⟨.up hup', hp.clientSize, hsize, hp.clientLines⟩, ?_⟩
    · simp only [hall, ↓reduceIte, Bench.echoSession, Option.map_some]
    · have hwritten := hup.written
      rw [hup.work, hup'.work]
      omega

theorem Down.echoStep (hb : b.Framed) (hp : Tidy b p) (hdown : Down b p k c o)
    (hstep : b.echoStep p n = some result) : Advances b p result := by
  obtain ⟨r, htransfer, rfl⟩ := Option.map_eq_some_iff.mp hstep
  by_cases ho : o < b.msg.length
  · obtain ⟨hn, hon, rfl⟩ := transfer_write (hdown.server.trans (if_pos ho)) htransfer
    have hpipe : p.toClient ++ (b.msg.drop o).take n = slice b.msg c (o + n) := by
      rw [hdown.toClient, slice_snoc hdown.order hdown.written]
    have hround := hdown.serverRound.trans (if_pos ho)
    have hnext : b.echoSession p.server (writeTurn b.msg o n) = some { p.server with
        call := if o + n < b.msg.length then .write b.msg (o + n) else b.serverCall (k + 1)
        round := if o + n < b.msg.length then k else k + 1 } := by
      rw [writeTurn]
      by_cases hall : o + n = b.msg.length
      · have hnot := Nat.not_lt_of_le (Nat.le_of_eq hall.symm)
        rw [if_pos hall, if_neg hnot, if_neg hnot, ← hround]
        exact b.serverCall_eq (s := { p.server with round := p.server.round + 1 }) hb
          hp.serverSize
      · have hlt := Nat.lt_of_le_of_ne hon hall
        rw [if_neg hall, if_pos hlt, if_pos hlt, ← hround]
        rfl
    have hdown' : Down b { p with
        server := { p.server with
          call := if o + n < b.msg.length then .write b.msg (o + n) else b.serverCall (k + 1)
          round := if o + n < b.msg.length then k else k + 1 }
        toClient := slice b.msg c (o + n) } k c (o + n) :=
      { hdown with
        order := Nat.le_trans hdown.order (Nat.le_add_right o n)
        written := hon
        server := rfl
        serverRound := rfl
        toClient := rfl }
    refine ⟨_, ?_, ⟨.down hdown', hp.clientSize, hp.serverSize, hp.clientLines⟩, ?_⟩
    · simp only [hpipe, hnext, Option.map_some]
    · have hleft := b.left_succ hdown.round
      rw [hdown.work, hdown'.work]
      omega
  · have hcall := hdown.server.trans (if_neg ho)
    have hopen : p.client.closed = false := by
      rw [Session.closed, hdown.client]
      rfl
    rw [Bench.serverCall] at hcall
    split at hcall
    · rw [hdown.toServer, hopen, transfer_idle hcall] at htransfer
      cases htransfer
    · rw [transfer_returned hcall] at htransfer
      cases htransfer

theorem Down.clientStep (hb : b.Framed) (hp : Tidy b p) (hdown : Down b p k c o)
    (hstep : b.clientStep p n = some result) : Advances b p result := by
  obtain ⟨r, htransfer, rfl⟩ := Option.map_eq_some_iff.mp hstep
  -- Where the server has left, all of the line is on its way.
  have hopen : p.server.closed = true → c < o := by
    intro hclosed
    by_cases ho : o < b.msg.length
    · rw [Session.closed, hdown.server, if_pos ho] at hclosed
      cases hclosed
    · exact Nat.lt_of_lt_of_le hdown.read (Nat.le_of_not_lt ho)
  rw [hdown.toClient] at htransfer
  obtain ⟨hn, hcn, buffer, rfl, htake, hsize⟩ := transfer_read hb hdown.client hdown.buffer
    hp.clientSize hdown.read hdown.order hdown.written hopen htransfer
  have hleft := b.left_succ hdown.round
  by_cases hall : c + n = b.msg.length
  · have ho : o = b.msg.length := Nat.le_antisymm hdown.written (hall ▸ hcn)
    have hnot := Nat.not_lt_of_le (Nat.le_of_eq ho.symm)
    have hline : buffer.take b.msg.length = b.msg := by
      rw [← hall, htake, hall, List.take_length]
    have hlines : p.client.lines ++ [b.msg] = List.replicate (k + 1) b.msg := by
      rw [hp.clientLines, hdown.clientRound, List.replicate_succ']
    have hserver := hdown.server.trans (if_neg hnot)
    have hserverRound := hdown.serverRound.trans (if_neg hnot)
    have hempty : slice b.msg (c + n) o = [] := by
      rw [hall, ho]
      exact slice_self ..
    by_cases hround : k + 1 < b.msgsPerSession
    · have hup : Up b { p with
          client := { p.client with
            call := .write b.msg 0
            round := k + 1
            buffer
            lines := p.client.lines ++ [b.msg] }
          toClient := slice b.msg (c + n) o } (k + 1) 0 0 :=
        { round := hround
          read := hb.msg_pos
          order := Nat.le_refl 0
          written := Nat.zero_le _
          client := (if_pos hb.msg_pos).symm
          clientRound := rfl
          server := hserver.trans (if_pos hround)
          serverRound := hserverRound
          buffer := rfl
          toServer := hdown.toServer.trans (slice_self ..).symm
          toClient := hempty
          serverLines := hdown.serverLines }
      refine ⟨_, ?_, ⟨.up hup, hsize, hp.serverSize, hlines⟩, ?_⟩
      · simp only [hall, ↓reduceIte, Bench.clientSession, Bench.clientRound, hline,
          hdown.clientRound, hround, hb.asyncWrite, Session.suspend, Option.map_some]
      · have hleft' := b.left_succ hround
        rw [hdown.work, hup.work]
        omega
    · have hended : Ended b { p with
          client := { p.client with
            call := .returned
            round := k + 1
            buffer
            lines := p.client.lines ++ [b.msg] }
          toClient := slice b.msg (c + n) o } :=
        { client := rfl
          clientRound := Nat.le_antisymm hdown.round (Nat.le_of_not_lt hround)
          server := hserver.trans (if_neg hround)
          serverRound :=
            hserverRound.trans (Nat.le_antisymm hdown.round (Nat.le_of_not_lt hround))
          toServer := hdown.toServer
          toClient := hempty
          serverLines := by
            rw [hdown.serverLines]
            exact congrArg (List.replicate · b.msg)
              (Nat.le_antisymm hdown.round (Nat.le_of_not_lt hround)) }
      refine ⟨_, ?_, ⟨.ended hended, hsize, hp.serverSize, hlines⟩, ?_⟩
      · simp only [hall, ↓reduceIte, Bench.clientSession, Bench.clientRound, hline,
          hdown.clientRound, hround, Option.map_some]
      · rw [hdown.work, hended.work]
        have hread := hdown.read
        omega
  · have hdown' : Down b { p with
        client := { p.client with call := .read (c + n) (c + n), buffer }
        toClient := slice b.msg (c + n) o } k (c + n) o :=
      { hdown with
        read := Nat.lt_of_le_of_ne (Nat.le_trans hcn hdown.written) hall
        order := hcn
        client := rfl
        buffer := htake
        toClient := rfl }
    refine ⟨_, ?_, ⟨.down hdown', hsize, hp.serverSize, hp.clientLines⟩, ?_⟩
    · simp only [hall, ↓reduceIte, Bench.clientSession, Option.map_some]
    · have hwritten := hdown.written
      rw [hdown.work, hdown'.work]
      omega

theorem transfer_open {r : Progress × List UInt8 × List UInt8 × List UInt8}
    (htransfer : s.transfer b.capacity peerClosed incoming outgoing n = some r) :
    s.closed = false := by
  refine Bool.eq_false_iff.mpr fun hclosed => ?_
  rw [transfer_returned (closed_iff.mp hclosed)] at htransfer
  cases htransfer

theorem Tidy.clientStep (hb : b.Framed) (hp : Tidy b p)
    (hstep : b.clientStep p n = some result) :
    Advances b p result ∧ p.client.closed = false := by
  obtain ⟨r, htransfer, -⟩ := Option.map_eq_some_iff.mp hstep
  have hopen := transfer_open htransfer
  cases hp.phase with
  | up hup => exact ⟨hup.clientStep hb hp hstep, hopen⟩
  | down hdown => exact ⟨hdown.clientStep hb hp hstep, hopen⟩
  | ended hended => cases hopen.symm.trans (closed_iff.mpr hended.client)

theorem Tidy.echoStep (hb : b.Framed) (hp : Tidy b p)
    (hstep : b.echoStep p n = some result) :
    Advances b p result ∧ ∀ q, result = some q → q.client = p.client := by
  obtain ⟨r, htransfer, hresult⟩ := Option.map_eq_some_iff.mp hstep
  refine ⟨?_, fun q hq => ?_⟩
  · cases hp.phase with
    | up hup => exact hup.echoStep hb hp hstep
    | down hdown => exact hdown.echoStep hb hp hstep
    | ended hended => cases (transfer_open htransfer).symm.trans (closed_iff.mpr hended.server)
  · obtain ⟨server, -, rfl⟩ := Option.map_eq_some_iff.mp (hresult.trans hq)
    rfl

/-! ### A step is possible -/

theorem transfer_write_live (hcall : s.call = .write b.msg o) (ho : o < b.msg.length)
    (hroom : 0 < b.capacity) :
    ∃ r, s.transfer b.capacity peerClosed incoming [] 1 = some r := by
  have hfits : 1 ≤ b.msg.length - o := by omega
  simp only [Session.transfer, hcall, List.length_nil, Nat.zero_add, Nat.one_pos, hfits,
    Nat.succ_le_of_lt hroom, and_self, ↓reduceIte]
  exact ⟨_, rfl⟩

theorem transfer_read_live (hb : b.Framed) (hcall : s.call = .read c c)
    (hsize : s.buffer.length = b.ioBufferSize) (hco : c < o) (ho : o ≤ b.msg.length) :
    ∃ r, s.transfer b.capacity peerClosed (slice b.msg c o) outgoing 1 = some r := by
  have hlength := slice_length (c := c) ho
  have hfits := hb.fits
  have hspace : 1 ≤ s.buffer.length - c := by omega
  have hthere : 1 ≤ (slice b.msg c o).length := by omega
  simp only [Session.transfer, hcall, Nat.one_pos, hspace, hthere, and_self, ↓reduceIte]
  exact ⟨_, rfl⟩

theorem clientStep_live {r : Progress × List UInt8 × List UInt8 × List UInt8}
    (hr : p.client.transfer b.capacity p.server.closed p.toClient p.toServer n = some r) :
    ∃ result, b.clientStep p n = some result := by
  rw [Bench.clientStep, hr]
  exact ⟨_, rfl⟩

theorem echoStep_live {r : Progress × List UInt8 × List UInt8 × List UInt8}
    (hr : p.server.transfer b.capacity p.client.closed p.toServer p.toClient n = some r) :
    ∃ result, b.echoStep p n = some result := by
  rw [Bench.echoStep, hr]
  exact ⟨_, rfl⟩

theorem Tidy.live (hb : b.Framed) (hp : Tidy b p) (hopen : p.client.closed = false) :
    (∃ result, b.clientStep p 1 = some result) ∨ ∃ result, b.echoStep p 1 = some result := by
  cases hp.phase with
  | @up k c o hup =>
      by_cases hco : c < o
      · obtain ⟨r, hr⟩ := transfer_read_live hb hup.server hp.serverSize hco hup.written
        rw [← hup.toServer] at hr
        exact .inr (echoStep_live hr)
      · have heq : c = o := Nat.le_antisymm hup.order (Nat.le_of_not_lt hco)
        have ho : o < b.msg.length := heq ▸ hup.read
        have hempty : p.toServer = [] := by
          rw [hup.toServer, heq, slice_self]
        obtain ⟨r, hr⟩ := transfer_write_live (hup.client.trans (if_pos ho)) ho hb.room
        rw [← hempty] at hr
        exact .inl (clientStep_live hr)
  | @down k c o hdown =>
      by_cases hco : c < o
      · obtain ⟨r, hr⟩ := transfer_read_live hb hdown.client hp.clientSize hco hdown.written
        rw [← hdown.toClient] at hr
        exact .inl (clientStep_live hr)
      · have heq : c = o := Nat.le_antisymm hdown.order (Nat.le_of_not_lt hco)
        have ho : o < b.msg.length := heq ▸ hdown.read
        have hempty : p.toClient = [] := by
          rw [hdown.toClient, heq, slice_self]
        obtain ⟨r, hr⟩ := transfer_write_live (hdown.server.trans (if_pos ho)) ho hb.room
        rw [← hempty] at hr
        exact .inr (echoStep_live hr)
  | ended hended => cases hopen.symm.trans (closed_iff.mpr hended.client)

/-! ### All of the sessions -/

def clientsLeft (pairs : Fin sessions → Pair) : Finset (Fin sessions) :=
  Finset.univ.filter fun i => (pairs i).client.closed = false

structure Inv (b : Bench) (s : State sessions) : Prop where
  tidy : ∀ i, Tidy b (s.pairs i)
  remaining : s.remaining = (clientsLeft s.pairs).card
  stopped : s.stopped = true → s.failed = true ∨ s.remaining = 0

/-- The bytes that are still to be moved. -/
def State.work (b : Bench) (s : State sessions) : Nat := ∑ i, b.work (s.pairs i)

variable {st st' : State sessions} {i : Fin sessions} {a : Action sessions}

theorem clientsLeft_same {pairs : Fin sessions → Pair}
    (hclosed : q.client.closed = (pairs i).client.closed) :
    clientsLeft (Function.update pairs i q) = clientsLeft pairs := by
  refine Finset.filter_congr fun j _ => ?_
  by_cases hj : j = i
  · subst hj
    rw [Function.update_self, hclosed]
  · rw [Function.update_of_ne hj]

theorem clientsLeft_erase {pairs : Fin sessions → Pair} (hclosed : q.client.closed = true) :
    clientsLeft (Function.update pairs i q) = (clientsLeft pairs).erase i := by
  ext j
  rw [Finset.mem_erase, clientsLeft, clientsLeft, Finset.mem_filter, Finset.mem_filter]
  by_cases hj : j = i
  · subst hj
    simp [hclosed]
  · simp [hj]

theorem mem_clientsLeft {pairs : Fin sessions → Pair} :
    i ∈ clientsLeft pairs ↔ (pairs i).client.closed = false := by
  rw [clientsLeft, Finset.mem_filter]
  exact and_iff_right (Finset.mem_univ i)

theorem Inv.setPair (hs : Inv b st) (hq : Tidy b q) (j : Fin sessions) :
    Tidy b ((st.setPair i q).pairs j) := by
  change Tidy b (Function.update st.pairs i q j)
  by_cases hj : j = i
  · subst hj
    rw [Function.update_self]
    exact hq
  · rw [Function.update_of_ne hj]
    exact hs.tidy j

theorem setPair_work (hq : b.work q < b.work (st.pairs i)) :
    (st.setPair i q).work b < st.work b := by
  refine Finset.sum_lt_sum (fun j _ => ?_) ⟨i, Finset.mem_univ i, ?_⟩
  · change b.work (Function.update st.pairs i q j) ≤ _
    by_cases hj : j = i
    · subst hj
      rw [Function.update_self]
      exact Nat.le_of_lt hq
    · rw [Function.update_of_ne hj]
  · change b.work (Function.update st.pairs i q i) < _
    rw [Function.update_self]
    exact hq

theorem Inv.fail (hs : Inv b st) : Inv b st.failAndStop :=
  ⟨hs.tidy, hs.remaining, fun _ => .inl rfl⟩

/-- The client's pair is put back, and the loop is stopped by the last one. -/
theorem Inv.leave (hs : Inv b st) (hopen : (st.pairs i).client.closed = false)
    (hq : Tidy b q) (hrunning : st.stopped = false) : Inv b ((st.setPair i q).leave q) := by
  rw [State.leave]
  split
  · next hclosed =>
      have hcard : st.remaining - 1 =
          (clientsLeft (Function.update st.pairs i q)).card := by
        rw [clientsLeft_erase hclosed, Finset.card_erase_of_mem (mem_clientsLeft.mpr hopen),
          hs.remaining]
      refine ⟨hs.setPair hq, hcard, fun hstopped => .inr ?_⟩
      have hone : st.remaining = 1 := beq_iff_eq.mp hstopped
      change st.remaining - 1 = 0
      rw [hone]
  · next hclosed =>
      refine ⟨hs.setPair hq, ?_, fun hstopped => ?_⟩
      · change st.remaining = (clientsLeft (Function.update st.pairs i q)).card
        rw [clientsLeft_same ((Bool.eq_false_iff.mpr hclosed).trans hopen.symm), hs.remaining]
      · cases hrunning.symm.trans hstopped

theorem leave_work (s : State sessions) (p : Pair) : (s.leave p).work b = s.work b := by
  rw [State.leave]
  split
  · rfl
  · rfl

theorem leave_failed (s : State sessions) (p : Pair) : (s.leave p).failed = s.failed := by
  rw [State.leave]
  split
  · rfl
  · rfl

/-- A step keeps the invariant; where it is a transfer, it is no failure and there is less
to do. -/
theorem step_inv (hb : b.Framed) (hs : Inv b st) (hstep : step b st a = some st') :
    Inv b st' ∧ (a.transfers → st'.failed = st.failed ∧ st'.work b < st.work b) := by
  unfold step at hstep
  split at hstep
  · cases hstep
  · next hstopped =>
      have hrunning := Bool.eq_false_iff.mpr hstopped
      cases a with
      | client i n =>
          obtain ⟨result, hresult, rfl⟩ := Option.map_eq_some_iff.mp hstep
          obtain ⟨⟨q, rfl, hq, hwork⟩, hopen⟩ := (hs.tidy i).clientStep hb hresult
          exact ⟨hs.leave hopen hq hrunning, fun _ => ⟨leave_failed _ q,
            Nat.lt_of_le_of_lt (Nat.le_of_eq (leave_work _ q)) (setPair_work hwork)⟩⟩
      | server i n =>
          obtain ⟨result, hresult, rfl⟩ := Option.map_eq_some_iff.mp hstep
          obtain ⟨⟨q, rfl, hq, hwork⟩, hclient⟩ := (hs.tidy i).echoStep hb hresult
          refine ⟨⟨hs.setPair hq, ?_, hs.stopped⟩, fun _ => ⟨rfl, setPair_work hwork⟩⟩
          change st.remaining = (clientsLeft (Function.update st.pairs i q)).card
          rw [clientsLeft_same (congrArg Session.closed (hclient q rfl)), hs.remaining]
      | error i =>
          obtain rfl := Option.some.inj hstep
          exact ⟨hs.fail, False.elim⟩

theorem Bench.Framed.tidy (hb : b.Framed) : Tidy b b.connected where
  phase := .up (k := 0) (c := 0) (o := 0)
    { round := hb.rounds
      read := hb.msg_pos
      order := Nat.le_refl 0
      written := Nat.zero_le _
      client := (if_pos hb.msg_pos).symm
      clientRound := rfl
      server := rfl
      serverRound := rfl
      buffer := rfl
      toServer := (slice_self ..).symm
      toClient := rfl
      serverLines := rfl }
  clientSize := List.length_replicate
  serverSize := List.length_replicate
  clientLines := rfl

theorem Bench.Framed.inv (hb : b.Framed) : Inv b (system b sessions).start where
  tidy := fun _ => hb.tidy
  remaining := by
    have hall : clientsLeft (fun _ : Fin sessions => b.connected) = Finset.univ :=
      Finset.filter_true_of_mem fun _ _ => rfl
    change sessions = (clientsLeft fun _ : Fin sessions => b.connected).card
    rw [hall, Finset.card_univ, Fintype.card_fin]
  stopped := by
    intro hstopped
    cases hstopped

/-- As long as a client is left, some transfer is possible. -/
theorem Inv.live (hb : b.Framed) (hs : Inv b st) (hfailed : st.failed = false)
    (hremaining : st.remaining ≠ 0) :
    ∃ a st', Action.transfers a ∧ step b st a = some st' := by
  have hrunning : ¬st.stopped = true := by
    intro hstopped
    rcases hs.stopped hstopped with hfail | hzero
    · cases hfailed.symm.trans hfail
    · exact hremaining hzero
  obtain ⟨i, hi⟩ := Finset.card_ne_zero.mp (hs.remaining ▸ hremaining)
  rcases (hs.tidy i).live hb (mem_clientsLeft.mp hi) with ⟨result, hresult⟩ | ⟨result, hresult⟩
  · refine ⟨.client i 1, ?_⟩
    simp only [step, if_neg hrunning, hresult, Option.map_some]
    exact ⟨_, trivial, rfl⟩
  · refine ⟨.server i 1, ?_⟩
    simp only [step, if_neg hrunning, hresult, Option.map_some]
    exact ⟨_, trivial, rfl⟩

/-- The client has got nothing but its line, once for each round, and the server, at most
one line ahead, nothing else either; one of the sockets is empty, and nothing is left when
the client has returned. -/
structure Served (b : Bench) (p : Pair) : Prop where
  client : p.client.lines = List.replicate p.client.round b.msg
  server : p.server.lines = List.replicate p.client.round b.msg ∨
    p.server.lines = List.replicate (p.client.round + 1) b.msg
  apart : p.toServer = [] ∨ p.toClient = []
  complete : p.client.closed = true → p.client.round = b.msgsPerSession ∧
    p.server.closed = true ∧ p.toServer = [] ∧ p.toClient = []

theorem Tidy.served (hp : Tidy b p) : Served b p := by
  cases hp.phase with
  | up hup =>
      refine ⟨hp.clientLines, .inl ?_, .inr hup.toClient, fun hclosed => ?_⟩
      · rw [hup.serverLines, hup.clientRound]
      · have hcall := hup.client.symm.trans (closed_iff.mp hclosed)
        split at hcall
        · cases hcall
        · cases hcall
  | down hdown =>
      refine ⟨hp.clientLines, .inr ?_, .inl hdown.toServer, fun hclosed => ?_⟩
      · rw [hdown.serverLines, hdown.clientRound]
      · cases hdown.client.symm.trans (closed_iff.mp hclosed)
  | ended hended =>
      refine ⟨hp.clientLines, .inl ?_, .inl hended.toServer, fun _ =>
        ⟨hended.clientRound, closed_iff.mpr hended.server, hended.toServer, hended.toClient⟩⟩
      rw [hended.serverLines, hended.clientRound]

theorem inv_of_reachable (hb : b.Framed) (hs : (system b sessions).Reachable st) :
    Inv b st :=
  hs.invariant hb.inv fun _ _ _ hinv hstep => (step_inv hb hinv hstep).1

def Working (b : Bench) (s : State sessions) : Prop := Inv b s ∧ s.failed = false

theorem working_of_reachable (hb : b.Framed)
    (hs : (system b sessions).ReachableUnder (fun _ a => a.transfers) st) : Working b st :=
  hs.invariant ⟨hb.inv, rfl⟩ fun _ _ _ hinv htransfers hstep =>
    have hnext := step_inv hb hinv.1 hstep
    ⟨hnext.1, (hnext.2 htransfers).1.trans hinv.2⟩

/-- No session calls `fail_and_stop` where the streams give no error, and whichever way
they go on the clients come to an end with all of their lines. -/
theorem sessions_end (hb : b.Framed)
    (hs : (system b sessions).ReachableUnder (fun _ a => a.transfers) st) :
    (system b sessions).Inevitable Action.transfers
      (fun t => t.failed = false ∧ t.remaining = 0 ∧
        ∀ i, (t.pairs i).client.lines = List.replicate b.msgsPerSession b.msg) st := by
  refine TransitionSystem.Inevitable.of_work (Working b) (State.work b) ?_ ?_ ?_
    (working_of_reachable hb hs)
  · intro s a t hinv htransfers hstep
    have hnext := step_inv hb hinv.1 hstep
    exact ⟨hnext.1, (hnext.2 htransfers).1.trans hinv.2⟩
  · intro s hinv
    by_cases hremaining : s.remaining = 0
    · refine .inl ⟨hinv.2, hremaining, fun i => ?_⟩
      have hempty := Finset.card_eq_zero.mp (hinv.1.remaining.symm.trans hremaining)
      have hclosed : (s.pairs i).client.closed = true := by
        by_contra hopen
        have hmem := mem_clientsLeft.mpr (Bool.eq_false_iff.mpr hopen)
        rw [hempty] at hmem
        exact Finset.notMem_empty i hmem
      have hserved := (hinv.1.tidy i).served
      rw [hserved.client, (hserved.complete hclosed).1]
    · exact .inr (hinv.1.live hb hinv.2 hremaining)
  · intro s a t hinv htransfers hstep
    exact ((step_inv hb hinv.1 hstep).2 htransfers).2

theorem Bench.ofArgs_framed (msgs msgBytes capacity : Nat) (hmsgs : 0 < msgs)
    (hcapacity : 0 < capacity) : (Bench.ofArgs msgs msgBytes capacity).Framed where
  rounds := hmsgs
  line := by
    refine ⟨List.replicate (msgBytes - 1) 120, rfl, fun hmem => ?_⟩
    have heq := List.eq_of_mem_replicate hmem
    exact absurd heq (by decide)
  fits := by
    change _ ≤ max 4096 ((List.replicate (msgBytes - 1) (120 : UInt8) ++ [newline]).length * 2)
    have hlength : (Bench.ofArgs msgs msgBytes capacity).msg.length =
        (List.replicate (msgBytes - 1) (120 : UInt8) ++ [newline]).length := rfl
    omega
  room := hcapacity

theorem sessions_end_ofArgs :
    (system (Bench.ofArgs 3 13 8) 2).Inevitable Action.transfers
      (fun t => t.failed = false ∧ t.remaining = 0 ∧
        ∀ i, (t.pairs i).client.lines = List.replicate 3 (Bench.ofArgs 3 13 8).msg)
      (system (Bench.ofArgs 3 13 8) 2).start :=
  sessions_end (Bench.ofArgs_framed 3 13 8 (by decide) (by decide)) .start

end EchoSession

end Iocoro
