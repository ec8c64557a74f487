/-
`async_read` and `async_write`: one loop moves a whole buffer by as many partial
transfers as the stream makes of it.  The rule for the loop is about any request; the
two calls give it their own.
-/
import Mathlib
import Iocoro.ReadUntil

universe u v

namespace Iocoro

namespace TransferAll

open ReadUntil (Read Stream copyTo)

variable {Ec : Type u} {σ : Type v}

inductive Error (Ec : Type u) : Type u
  | eof
  | brokenPipe
  | stream (ec : Ec)
  deriving DecidableEq, Repr

/-- The result of a call with the sizes of the spans it offered to the stream. -/
structure Outcome (Ec : Type u) : Type u where
  result : Except (Error Ec) Nat
  requests : List Nat
  deriving Repr

/-- One request: by its number and the offset of the span it is for, it returns what
`async_read_some` or `async_write_some` returns and leaves the state behind. -/
abbrev Request (Ec : Type u) (σ : Type v) : Type (max u v) :=
  (count offset : Nat) → σ → Except Ec Nat × σ

/-- The loop of both calls; `closed` is what a transfer of no byte means. -/
def loop (request : Request Ec σ) (closed : Error Ec) (wanted : Nat) :
    (fuel : Nat) → (offset : Nat) → σ → (requests : List Nat) → Option (Outcome Ec × σ)
  | 0, _, _, _ => none
  | fuel + 1, offset, state, requests =>
      if wanted - offset = 0 then some (⟨.ok wanted, requests⟩, state)
      else
        let requests' := requests ++ [wanted - offset]
        match request requests.length offset state with
        | (.error ec, state') => some (⟨.error (.stream ec), requests'⟩, state')
        | (.ok n, state') =>
            if n = 0 then some (⟨.error closed, requests'⟩, state')
            else loop request closed wanted fuel (offset + n) state' requests'

/-- How the loop ends after `offset` bytes. -/
inductive Ended (request : Request Ec σ) (closed : Error Ec) (wanted offset : Nat)
    (state : σ) (requests : List Nat) : Outcome Ec → σ → Prop
  | complete (hfull : offset = wanted) :
      Ended request closed wanted offset state requests ⟨.ok wanted, requests⟩ state
  | failed {ec : Ec} {state' : σ} (hspace : offset < wanted)
      (hrequest : request requests.length offset state = (.error ec, state')) :
      Ended request closed wanted offset state requests
        ⟨.error (.stream ec), requests ++ [wanted - offset]⟩ state'
  | closed {state' : σ} (hspace : offset < wanted)
      (hrequest : request requests.length offset state = (.ok 0, state')) :
      Ended request closed wanted offset state requests
        ⟨.error closed, requests ++ [wanted - offset]⟩ state'

section Rule

variable {request : Request Ec σ} {wanted : Nat}

/-- What holds at the start and is kept by each transfer holds where the loop ends,
and there is fuel for as many transfers as there are bytes. -/
theorem loop_rule (closed : Error Ec) (Inv : List Nat → Nat → σ → Prop)
    (hkept : ∀ requests offset state n state',
      Inv requests offset state → offset < wanted → 0 < n →
      request requests.length offset state = (.ok n, state') →
      offset + n ≤ wanted ∧ Inv (requests ++ [wanted - offset]) (offset + n) state') :
    ∀ (fuel offset : Nat) (state : σ) (requests : List Nat),
      Inv requests offset state → offset ≤ wanted → wanted - offset < fuel →
      ∃ offset' state' requests' outcome final,
        loop request closed wanted fuel offset state requests =
          some (outcome, final) ∧
        Inv requests' offset' state' ∧
        Ended request closed wanted offset' state' requests' outcome final
  | 0, _, _, _, _, _, hfuel => absurd hfuel (Nat.not_lt_zero _)
  | fuel + 1, offset, state, requests, hinv, hle, hfuel => by
      rw [loop]
      by_cases hempty : wanted - offset = 0
      · rw [if_pos hempty]
        exact ⟨offset, state, requests, _, _, rfl, hinv, .complete (by omega)⟩
      · have hspace : offset < wanted := by omega
        simp only [if_neg hempty]
        cases hrequest : request requests.length offset state with
        | mk result state' =>
            cases result with
            | error ec =>
                exact ⟨offset, state, requests, _, _, rfl, hinv,
                  .failed hspace hrequest⟩
            | ok n =>
                by_cases hzero : n = 0
                · subst hzero
                  exact ⟨offset, state, requests, _, _, rfl, hinv,
                    .closed hspace hrequest⟩
                · have hpos := Nat.pos_of_ne_zero hzero
                  obtain ⟨hle', hinv'⟩ := hkept _ _ _ _ _ hinv hspace hpos hrequest
                  simp only [if_neg hzero]
                  exact loop_rule closed Inv hkept fuel (offset + n) state'
                    (requests ++ [wanted - offset]) hinv' hle' (by omega)

end Rule

/-- `async_read_some` on `buf.subspan(offset)`: what is delivered is in the buffer. -/
def readRequest (stream : Stream Ec) : Request Ec (List UInt8) :=
  fun count offset buf =>
    match stream count (buf.length - offset) with
    | .error ec => (.error ec, buf)
    | .endOfStream => (.ok 0, buf)
    | .bytes chunk _ _ => (.ok chunk.length, copyTo buf chunk offset)

def asyncRead (stream : Stream Ec) (buf : List UInt8) :
    Option (Outcome Ec × List UInt8) :=
  loop (readRequest stream) .eof buf.length (buf.length + 1) 0 buf []

/-- What `async_write_some` may do with a span of this many bytes. -/
inductive Write (Ec : Type u) (offered : Nat) : Type u
  | error (ec : Ec)
  | zero
  | accepted (n : Nat) (hpos : 0 < n) (hfits : n ≤ offered)

/-- The results of `async_write_some`, by the number of the request and the bytes
offered. -/
abbrev WriteStream (Ec : Type u) : Type u :=
  (count : Nat) → (offered : List UInt8) → Write Ec offered.length

/-- `async_write_some` on `buf.subspan(offset)`: what is accepted is received by the
stream. -/
def writeRequest (stream : WriteStream Ec) (buf : List UInt8) :
    Request Ec (List UInt8) :=
  fun count offset received =>
    match stream count (buf.drop offset) with
    | .error ec => (.error ec, received)
    | .zero => (.ok 0, received)
    | .accepted n _ _ => (.ok n, received ++ (buf.drop offset).take n)

/-- The call and the bytes the stream received from it. -/
def asyncWrite (stream : WriteStream Ec) (buf : List UInt8) :
    Option (Outcome Ec × List UInt8) :=
  loop (writeRequest stream buf) .brokenPipe buf.length (buf.length + 1) 0 [] []

/-- The chunks the stream delivered, each into all of the span that was free, and the
sizes of these spans. -/
inductive Delivered (stream : Stream Ec) (size : Nat) :
    List (List UInt8) → List Nat → Prop
  | nil : Delivered stream size [] []
  | snoc {chunks : List (List UInt8)} {requests : List Nat} {chunk : List UInt8}
      {hchunk : chunk ≠ []} {hfits : chunk.length ≤ size - chunks.flatten.length}
      (hrest : Delivered stream size chunks requests)
      (hread : stream requests.length (size - chunks.flatten.length) =
        .bytes chunk hchunk hfits) :
      Delivered stream size (chunks ++ [chunk])
        (requests ++ [size - chunks.flatten.length])

/-- The buffer with these chunks in front. -/
def filled (chunks : List (List UInt8)) (buf : List UInt8) : List UInt8 :=
  chunks.flatten ++ buf.drop chunks.flatten.length

theorem filled_snoc {chunks : List (List UInt8)} {chunk buf : List UInt8} :
    copyTo (filled chunks buf) chunk chunks.flatten.length =
      filled (chunks ++ [chunk]) buf := by
  rw [filled, ReadUntil.copyTo_append, List.drop_drop, filled]
  simp

theorem filled_length {chunks : List (List UInt8)} {buf : List UInt8}
    (hle : chunks.flatten.length ≤ buf.length) :
    (filled chunks buf).length = buf.length := by
  rw [filled, List.length_append, List.length_drop]
  omega

/-- The counts the stream accepted, each of all that was left of the buffer, and the
sizes of these spans. -/
inductive Accepted (stream : WriteStream Ec) (buf : List UInt8) :
    List Nat → List Nat → Prop
  | nil : Accepted stream buf [] []
  | snoc {counts requests : List Nat} {n : Nat} {hpos : 0 < n}
      {hfits : n ≤ (buf.drop counts.sum).length}
      (hrest : Accepted stream buf counts requests)
      (hwrite : stream requests.length (buf.drop counts.sum) =
        .accepted n hpos hfits) :
      Accepted stream buf (counts ++ [n]) (requests ++ [buf.length - counts.sum])

/-- The free span shrinks with every request, so there is one for each byte at most. -/
theorem Delivered.length_le {stream : Stream Ec} {size : Nat}
    {chunks : List (List UInt8)} {requests : List Nat}
    (hchunks : Delivered stream size chunks requests) :
    requests.length ≤ chunks.flatten.length ∧ chunks.flatten.length ≤ size := by
  induction hchunks with
  | nil => exact ⟨Nat.le_refl _, Nat.zero_le _⟩
  | snoc hrest hread ih =>
      rename_i chunks requests chunk hchunk hfits
      have hpos := List.length_pos_iff.mpr hchunk
      simp only [List.flatten_append, List.length_append, List.flatten_singleton,
        List.length_singleton]
      omega

theorem Accepted.length_le {stream : WriteStream Ec} {buf : List UInt8}
    {counts requests : List Nat} (hcounts : Accepted stream buf counts requests) :
    requests.length ≤ counts.sum ∧ counts.sum ≤ buf.length := by
  induction hcounts with
  | nil => exact ⟨Nat.le_refl _, Nat.zero_le _⟩
  | snoc hrest hwrite ih =>
      rename_i counts requests n hpos hfits
      rw [List.length_drop] at hfits
      simp only [List.sum_append, List.length_append, List.sum_singleton,
        List.length_singleton]
      omega

/-- How `async_read` ends once these chunks have been delivered. -/
inductive ReadEnded (stream : Stream Ec) (size received : Nat) (requests : List Nat) :
    Outcome Ec → Prop
  | complete (hfull : received = size) :
      ReadEnded stream size received requests ⟨.ok size, requests⟩
  | failed {ec : Ec} (hspace : received < size)
      (hread : stream requests.length (size - received) = .error ec) :
      ReadEnded stream size received requests
        ⟨.error (.stream ec), requests ++ [size - received]⟩
  | ended (hspace : received < size)
      (hread : stream requests.length (size - received) = .endOfStream) :
      ReadEnded stream size received requests
        ⟨.error .eof, requests ++ [size - received]⟩

/-- How `async_write` ends once that many bytes have been accepted. -/
inductive WriteEnded (stream : WriteStream Ec) (buf : List UInt8) (sent : Nat)
    (requests : List Nat) : Outcome Ec → Prop
  | complete (hfull : sent = buf.length) :
      WriteEnded stream buf sent requests ⟨.ok buf.length, requests⟩
  | failed {ec : Ec} (hspace : sent < buf.length)
      (hwrite : stream requests.length (buf.drop sent) = .error ec) :
      WriteEnded stream buf sent requests
        ⟨.error (.stream ec), requests ++ [buf.length - sent]⟩
  | broken (hspace : sent < buf.length)
      (hwrite : stream requests.length (buf.drop sent) = .zero) :
      WriteEnded stream buf sent requests
        ⟨.error .brokenPipe, requests ++ [buf.length - sent]⟩

section Requests

variable {buf : List UInt8} {size : Nat}

theorem readRequest_cases (stream : Stream Ec) (hsize : buf.length = size)
    (count offset : Nat) :
    (∃ ec, stream count (size - offset) = .error ec ∧
      readRequest stream count offset buf = (.error ec, buf)) ∨
    (stream count (size - offset) = .endOfStream ∧
      readRequest stream count offset buf = (.ok 0, buf)) ∨
    (∃ chunk hchunk hfits,
      stream count (size - offset) = .bytes chunk hchunk hfits ∧
      readRequest stream count offset buf =
        (.ok chunk.length, copyTo buf chunk offset)) := by
  subst hsize
  rw [readRequest]
  cases hread : stream count (buf.length - offset) with
  | error ec => exact .inl ⟨ec, rfl, rfl⟩
  | endOfStream => exact .inr (.inl ⟨rfl, rfl⟩)
  | bytes chunk hchunk hfits => exact .inr (.inr ⟨chunk, hchunk, hfits, rfl, rfl⟩)

theorem writeRequest_cases (stream : WriteStream Ec) (buf : List UInt8)
    (count offset : Nat) (received : List UInt8) :
    (∃ ec, stream count (buf.drop offset) = .error ec ∧
      writeRequest stream buf count offset received = (.error ec, received)) ∨
    (stream count (buf.drop offset) = .zero ∧
      writeRequest stream buf count offset received = (.ok 0, received)) ∨
    (∃ n hpos hfits,
      stream count (buf.drop offset) = .accepted n hpos hfits ∧
      writeRequest stream buf count offset received =
        (.ok n, received ++ (buf.drop offset).take n)) := by
  rw [writeRequest]
  cases hwrite : stream count (buf.drop offset) with
  | error ec => exact .inl ⟨ec, rfl, rfl⟩
  | zero => exact .inr (.inl ⟨rfl, rfl⟩)
  | accepted n hpos hfits => exact .inr (.inr ⟨n, hpos, hfits, rfl, rfl⟩)

end Requests

/-- The buffer begins with what was delivered. -/
def ReadInv (stream : Stream Ec) (buf : List UInt8) (requests : List Nat)
    (offset : Nat) (buf' : List UInt8) : Prop :=
  ∃ chunks, offset = chunks.flatten.length ∧ buf' = filled chunks buf ∧
    Delivered stream buf.length chunks requests

/-- The stream has received the front of the buffer. -/
def WriteInv (stream : WriteStream Ec) (buf : List UInt8) (requests : List Nat)
    (offset : Nat) (received : List UInt8) : Prop :=
  ∃ counts : List Nat, offset = counts.sum ∧ received = buf.take offset ∧
    Accepted stream buf counts requests

theorem ReadInv.length_eq {stream : Stream Ec} {buf buf' : List UInt8}
    {requests : List Nat} {offset : Nat}
    (hinv : ReadInv stream buf requests offset buf') :
    buf'.length = buf.length := by
  obtain ⟨chunks, -, rfl, hchunks⟩ := hinv
  exact filled_length hchunks.length_le.2

theorem ReadInv.kept {stream : Stream Ec} {buf buf' buf'' : List UInt8}
    {requests : List Nat} {offset n : Nat}
    (hinv : ReadInv stream buf requests offset buf') (hspace : offset < buf.length)
    (hpos : 0 < n)
    (hrequest : readRequest stream requests.length offset buf' = (.ok n, buf'')) :
    offset + n ≤ buf.length ∧
      ReadInv stream buf (requests ++ [buf.length - offset]) (offset + n) buf'' := by
  have hlength := hinv.length_eq
  obtain ⟨chunks, rfl, rfl, hchunks⟩ := hinv
  obtain ⟨ec, -, heq⟩ | ⟨-, heq⟩ | ⟨chunk, hchunk, hfits, hread, heq⟩ :=
    readRequest_cases stream hlength requests.length chunks.flatten.length
  · cases heq.symm.trans hrequest
  · cases heq.symm.trans hrequest
    omega
  · cases heq.symm.trans hrequest
    refine ⟨by omega, chunks ++ [chunk], by simp, filled_snoc, ?_⟩
    exact hchunks.snoc hread

theorem WriteInv.kept {stream : WriteStream Ec} {buf received received' : List UInt8}
    {requests : List Nat} {offset n : Nat}
    (hinv : WriteInv stream buf requests offset received)
    (hspace : offset < buf.length) (hpos : 0 < n)
    (hrequest :
      writeRequest stream buf requests.length offset received = (.ok n, received')) :
    offset + n ≤ buf.length ∧
      WriteInv stream buf (requests ++ [buf.length - offset]) (offset + n)
        received' := by
  obtain ⟨counts, rfl, rfl, hcounts⟩ := hinv
  obtain ⟨ec, -, heq⟩ | ⟨-, heq⟩ | ⟨m, hpos', hfits, hwrite, heq⟩ :=
    writeRequest_cases stream buf requests.length counts.sum (buf.take counts.sum)
  · cases heq.symm.trans hrequest
  · cases heq.symm.trans hrequest
    omega
  · cases heq.symm.trans hrequest
    rw [List.length_drop] at hfits
    refine ⟨by omega, counts ++ [n], by simp, ?_, hcounts.snoc hwrite⟩
    rw [List.take_add]

theorem ReadInv.ended {stream : Stream Ec} {buf buf' final : List UInt8}
    {requests : List Nat} {offset : Nat} {outcome : Outcome Ec}
    (hinv : ReadInv stream buf requests offset buf')
    (hended : Ended (readRequest stream) .eof buf.length offset buf' requests
      outcome final) :
    ReadEnded stream buf.length offset requests outcome ∧ final = buf' := by
  have hcases := readRequest_cases stream hinv.length_eq requests.length offset
  cases hended with
  | complete hfull => exact ⟨.complete hfull, rfl⟩
  | failed hspace hrequest =>
      obtain ⟨ec, hread, heq⟩ | ⟨-, heq⟩ | ⟨_, _, _, -, heq⟩ := hcases
      · cases heq.symm.trans hrequest
        exact ⟨.failed hspace hread, rfl⟩
      · cases heq.symm.trans hrequest
      · cases heq.symm.trans hrequest
  | closed hspace hrequest =>
      obtain ⟨ec, -, heq⟩ | ⟨hread, heq⟩ | ⟨chunk, hchunk, _, -, heq⟩ := hcases
      · cases heq.symm.trans hrequest
      · cases heq.symm.trans hrequest
        exact ⟨.ended hspace hread, rfl⟩
      · have hzero := congrArg Prod.fst (heq.symm.trans hrequest)
        exact absurd (List.length_eq_zero_iff.mp (Except.ok.inj hzero)) hchunk

theorem WriteInv.ended {stream : WriteStream Ec} {buf received final : List UInt8}
    {requests : List Nat} {offset : Nat} {outcome : Outcome Ec}
    (hended : Ended (writeRequest stream buf) .brokenPipe buf.length offset received
      requests outcome final) :
    WriteEnded stream buf offset requests outcome ∧ final = received := by
  have hcases := writeRequest_cases stream buf requests.length offset received
  cases hended with
  | complete hfull => exact ⟨.complete hfull, rfl⟩
  | failed hspace hrequest =>
      obtain ⟨ec, hwrite, heq⟩ | ⟨-, heq⟩ | ⟨_, _, _, -, heq⟩ := hcases
      · cases heq.symm.trans hrequest
        exact ⟨.failed hspace hwrite, rfl⟩
      · cases heq.symm.trans hrequest
      · cases heq.symm.trans hrequest
  | closed hspace hrequest =>
      obtain ⟨ec, -, heq⟩ | ⟨hwrite, heq⟩ | ⟨n, hpos, _, -, heq⟩ := hcases
      · cases heq.symm.trans hrequest
      · cases heq.symm.trans hrequest
        exact ⟨.broken hspace hwrite, rfl⟩
      · have hzero := congrArg Prod.fst (heq.symm.trans hrequest)
        exact absurd (Except.ok.inj hzero) (Nat.ne_of_gt hpos)

/-- The call ends; what is in the buffer then is what was delivered, in order. -/
theorem asyncRead_run (stream : Stream Ec) (buf : List UInt8) :
    ∃ chunks requests outcome,
      asyncRead stream buf = some (outcome, filled chunks buf) ∧
      Delivered stream buf.length chunks requests ∧
      ReadEnded stream buf.length chunks.flatten.length requests outcome := by
  obtain ⟨offset, buf', requests, outcome, final, hloop, hinv, hended⟩ :=
    loop_rule .eof (ReadInv stream buf)
      (fun _ _ _ _ _ hinv hspace hpos hrequest => hinv.kept hspace hpos hrequest)
      (buf.length + 1) 0 buf [] ⟨[], rfl, rfl, .nil⟩ (Nat.zero_le _) (by omega)
  obtain ⟨hread, rfl⟩ := hinv.ended hended
  obtain ⟨chunks, rfl, rfl, hchunks⟩ := hinv
  exact ⟨chunks, requests, outcome, hloop, hchunks, hread⟩

/-- The call ends; what the stream received is the front of the buffer. -/
theorem asyncWrite_run (stream : WriteStream Ec) (buf : List UInt8) :
    ∃ counts requests outcome,
      asyncWrite stream buf = some (outcome, buf.take counts.sum) ∧
      Accepted stream buf counts requests ∧
      WriteEnded stream buf counts.sum requests outcome := by
  obtain ⟨offset, received, requests, outcome, final, hloop, hinv, hended⟩ :=
    loop_rule .brokenPipe (WriteInv stream buf)
      (fun _ _ _ _ _ hinv hspace hpos hrequest => hinv.kept hspace hpos hrequest)
      (buf.length + 1) 0 [] [] ⟨[], rfl, rfl, .nil⟩ (Nat.zero_le _) (by omega)
  obtain ⟨hwrite, rfl⟩ := WriteInv.ended hended
  obtain ⟨counts, rfl, rfl, hcounts⟩ := hinv
  exact ⟨counts, requests, outcome, hloop, hcounts, hwrite⟩

theorem loop_nil (request : Request Ec σ) (closed : Error Ec) (fuel : Nat) (state : σ) :
    loop request closed 0 (fuel + 1) 0 state [] = some (⟨.ok 0, []⟩, state) := rfl

/-- Both calls end after any schedule of partial transfers, with as many requests as
there are bytes at most.  A read that succeeds has filled the buffer with the chunks
that were delivered, one behind the other; a write that succeeds has had all of the
buffer received.  Otherwise the result is that of the last request, and what was
transferred before it is the front of the buffer.  An empty buffer takes no request. -/
theorem asyncRead_asyncWrite_exact :
    (∀ (stream : Stream Ec) (buf : List UInt8),
      ∃ chunks requests outcome,
        asyncRead stream buf =
          some (outcome, chunks.flatten ++ buf.drop chunks.flatten.length) ∧
        Delivered stream buf.length chunks requests ∧
        ReadEnded stream buf.length chunks.flatten.length requests outcome ∧
        outcome.requests.length ≤ buf.length ∧
        (∀ n, outcome.result = .ok n →
          n = buf.length ∧
            asyncRead stream buf = some (⟨.ok n, requests⟩, chunks.flatten)) ∧
        (buf = [] → outcome = ⟨.ok 0, []⟩)) ∧
    (∀ (stream : WriteStream Ec) (buf : List UInt8),
      ∃ counts requests outcome,
        asyncWrite stream buf = some (outcome, buf.take counts.sum) ∧
        Accepted stream buf counts requests ∧
        WriteEnded stream buf counts.sum requests outcome ∧
        outcome.requests.length ≤ buf.length ∧
        (∀ n, outcome.result = .ok n →
          n = buf.length ∧ asyncWrite stream buf = some (⟨.ok n, requests⟩, buf)) ∧
        (buf = [] → outcome = ⟨.ok 0, []⟩)) := by
  refine ⟨fun stream buf => ?_, fun stream buf => ?_⟩
  · obtain ⟨chunks, requests, outcome, hread, hchunks, hended⟩ :=
      asyncRead_run stream buf
    have hlength := hchunks.length_le
    refine ⟨chunks, requests, outcome, hread, hchunks, hended, ?_, ?_, ?_⟩
    · cases hended with
      | complete => exact Nat.le_trans hlength.1 hlength.2
      | failed hspace => simp only [List.length_append, List.length_singleton]; omega
      | ended hspace => simp only [List.length_append, List.length_singleton]; omega
    · intro n hok
      cases hended with
      | complete hfull =>
          cases hok
          refine ⟨rfl, hread.trans ?_⟩
          rw [filled, hfull, List.drop_length, List.append_nil]
      | failed => nomatch hok
      | ended => nomatch hok
    · rintro rfl
      exact (Prod.mk.inj (Option.some.inj (hread.symm.trans (loop_nil _ _ _ _)))).1
  · obtain ⟨counts, requests, outcome, hwrite, hcounts, hended⟩ :=
      asyncWrite_run stream buf
    have hlength := hcounts.length_le
    refine ⟨counts, requests, outcome, hwrite, hcounts, hended, ?_, ?_, ?_⟩
    · cases hended with
      | complete => exact Nat.le_trans hlength.1 hlength.2
      | failed hspace => simp only [List.length_append, List.length_singleton]; omega
      | broken hspace => simp only [List.length_append, List.length_singleton]; omega
    · intro n hok
      cases hended with
      | complete hfull =>
          cases hok
          refine ⟨rfl, hwrite.trans ?_⟩
          rw [hfull, List.take_length]
      | failed => nomatch hok
      | broken => nomatch hok
    · rintro rfl
      exact (Prod.mk.inj (Option.some.inj (hwrite.symm.trans (loop_nil _ _ _ _)))).1

end TransferAll

end Iocoro
