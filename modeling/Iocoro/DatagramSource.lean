/-
Where a received datagram came from.  `datagram_socket_impl` has taken the datagram from
the kernel when `basic_datagram_socket` makes an endpoint of the reported address, so an
address that the endpoint type refuses takes the datagram with it.
-/
import Iocoro.IpEndpoint

namespace Iocoro

open IpEndpoint (Bytes familyOf member)

namespace LocalEndpoint

open IpEndpoint (Error)

def afUnix : UInt16 := 1

/-- `offsetof(sockaddr_un, sun_path)`. -/
def sunPathOffset : Nat := 2

def sunPathSize : Nat := 108

def sockaddrUnSize : Nat := 110

/-- A `sockaddr_un` set to zero with bytes copied to its start. -/
def sockaddrUn (native : List UInt8) (hfits : native.length ≤ sockaddrUnSize) :
    Bytes sockaddrUnSize :=
  ⟨native ++ List.replicate (sockaddrUnSize - native.length) 0, by
    rw [List.length_append, List.length_replicate]
    omega⟩

/-- `local::endpoint`; what it holds of `sun_path` is within the structure. -/
structure Endpoint where
  addr : Bytes sockaddrUnSize
  size : Nat
  within : sunPathOffset ≤ size ∧ size ≤ sockaddrUnSize
deriving DecidableEq

/-- The default constructor. -/
def Endpoint.unset (order : ByteOrder) : Endpoint where
  addr := sockaddrUn (order.store 2 afUnix.toNat) (by
    rw [ByteOrder.length_store]
    decide)
  size := sunPathOffset
  within := by decide

/-- `data()` with `size()`. -/
def Endpoint.native (e : Endpoint) : List UInt8 :=
  e.addr.toList.take e.size

/-- `from_native` of the memory at an address with a length; nothing is a null
pointer. -/
def fromNative (order : ByteOrder) (addr : Option (List UInt8)) (len : Nat) :
    Except Error Endpoint :=
  match addr with
  | none => .error .invalidArgument
  | some memory =>
      if len = 0 then .error .invalidArgument
      else if familyOf order memory ≠ afUnix then .error .unsupportedAddressFamily
      else if hmin : len < sunPathOffset + 1 then .error .invalidEndpoint
      else if hmax : len > sockaddrUnSize then .error .invalidEndpoint
      else
        let addr := sockaddrUn (memory.take len)
          (le_trans (List.length_take_le ..) (not_lt.mp hmax))
        if addr.toList[sunPathOffset]? = some 0 ∧ len = sunPathOffset + 1 then
          .error .invalidEndpoint
        else .ok {
          addr, size := len
          within := ⟨Nat.le_of_succ_le (not_lt.mp hmin), not_lt.mp hmax⟩ }

/-- The reported bytes are those of a socket address with a name. -/
structure Named (order : ByteOrder) (memory : List UInt8) (len : Nat) : Prop where
  family : familyOf order memory = afUnix
  within : sunPathOffset < len ∧ len ≤ sockaddrUnSize
  nonempty : memory[sunPathOffset]? = some 0 → len ≠ sunPathOffset + 1

theorem native_sockaddrUn {native : List UInt8} (hfits : native.length ≤ sockaddrUnSize)
    {len : Nat} (hlen : native.length = len) :
    (sockaddrUn native hfits).toList.take len = native :=
  List.take_left' hlen

/-- `from_native` keeps what it is given where it is the address of a socket with a
name, and refuses all else. -/
theorem fromNative_iff {order : ByteOrder} {memory : List UInt8} {len : Nat}
    (hlen : len ≤ memory.length) :
    (∃ ep, fromNative order (some memory) len = .ok ep ∧ ep.native = memory.take len) ↔
      Named order memory len := by
  have hfirst : ∀ hfits, sunPathOffset < len →
      (sockaddrUn (memory.take len) hfits).toList[sunPathOffset]? =
        memory[sunPathOffset]? := by
    intro hfits hpath
    change (memory.take len ++ _)[sunPathOffset]? = _
    rw [List.getElem?_append_left (by rw [List.length_take]; omega),
      List.getElem?_take_of_lt hpath]
  constructor
  · rintro ⟨ep, haccepted, -⟩
    simp only [fromNative] at haccepted
    split at haccepted
    · nomatch haccepted
    · split at haccepted
      · nomatch haccepted
      · next hfamily =>
          split at haccepted
          · nomatch haccepted
          · next hmin =>
              split at haccepted
              · nomatch haccepted
              · next hmax =>
                  split at haccepted
                  · nomatch haccepted
                  · next hempty =>
                      have hpath : sunPathOffset < len := not_lt.mp hmin
                      rw [hfirst _ hpath] at hempty
                      exact ⟨not_not.mp hfamily, ⟨hpath, not_lt.mp hmax⟩,
                        fun hzero hone => hempty ⟨hzero, hone⟩⟩
  · intro hnamed
    obtain ⟨hpath, hmax⟩ := hnamed.within
    simp only [fromNative]
    have htake : (memory.take len).length = len := by
      rw [List.length_take, Nat.min_eq_left hlen]
    have hfits : (memory.take len).length ≤ sockaddrUnSize := by rwa [htake]
    rw [if_neg (by omega), if_neg (not_not.mpr hnamed.family), dif_neg (by omega),
      dif_neg (not_lt.mpr hmax), if_neg]
    · exact ⟨_, rfl, native_sockaddrUn hfits htake⟩
    · rw [hfirst hfits hpath]
      exact fun hempty => hnamed.nonempty hempty.1 hempty.2

end LocalEndpoint

namespace DatagramSource

/-- The datagram protocols. -/
inductive Protocol where
  | udp
  | dgram
deriving DecidableEq, Repr

/-- `Protocol::endpoint`. -/
def Protocol.Endpoint (order : ByteOrder) : Protocol → Type
  | .udp => IpEndpoint.EndpointStorage order
  | .dgram => LocalEndpoint.Endpoint

def Protocol.fromNative (order : ByteOrder) (memory : List UInt8) (len : Nat) :
    (protocol : Protocol) → Except IpEndpoint.Error (protocol.Endpoint order)
  | .udp => IpEndpoint.EndpointStorage.fromNative order (some (memory.take len))
  | .dgram => LocalEndpoint.fromNative order (some memory) len

/-- `data()` with `size()`. -/
def Protocol.native (order : ByteOrder) :
    (protocol : Protocol) → protocol.Endpoint order → List UInt8
  | .udp, e => List.take e.size e.storage.toList
  | .dgram, e => LocalEndpoint.Endpoint.native e

/-- The senders as the kernel reports them: a complete structure of one of the two IP
families, and for `AF_UNIX` a socket without a name, with or without its family, a
pathname with its terminator, or an abstract name after the leading NUL. -/
inductive Sender (order : ByteOrder) : Protocol → Type where
  | inet (native : List UInt8)
      (hknown : familyOf order native = IpEndpoint.afInet ∨
        familyOf order native = IpEndpoint.afInet6)
      (hlength : native.length = IpEndpoint.requiredLen (familyOf order native)) :
      Sender order .udp
  | unnamed (family : Bool) : Sender order .dgram
  | pathname (path : List UInt8) (hne : path ≠ []) (hplain : 0 ∉ path)
      (hfits : path.length ≤ LocalEndpoint.sunPathSize) : Sender order .dgram
  | abstractName (name : List UInt8) (hfits : name.length < LocalEndpoint.sunPathSize) :
      Sender order .dgram

/-- The reported bytes. -/
def Sender.native {order : ByteOrder} {protocol : Protocol} :
    Sender order protocol → List UInt8
  | .inet native _ _ => native
  | .unnamed false => []
  | .unnamed true => order.store 2 LocalEndpoint.afUnix.toNat
  | .pathname path _ _ _ => order.store 2 LocalEndpoint.afUnix.toNat ++ (path ++ [0])
  | .abstractName name _ => order.store 2 LocalEndpoint.afUnix.toNat ++ 0 :: name

/-- The senders that the endpoint type has room for: not one without a name, no pathname
that fills all of `sun_path`, and no empty abstract name. -/
def Sender.named {order : ByteOrder} {protocol : Protocol} :
    Sender order protocol → Bool
  | .inet _ _ _ => true
  | .unnamed _ => false
  | .pathname path _ _ _ => path.length < LocalEndpoint.sunPathSize
  | .abstractName name _ => !name.isEmpty

inductive Error where
  | notOpen
  | notBound
  | operationAborted
  | busy
  | invalidArgument
  | messageSize
  | system (errno : Nat)
  | endpoint (e : IpEndpoint.Error)
deriving DecidableEq

/-- The `sockaddr_storage` and its length that the kernel fills in. -/
structure Source where
  storage : List UInt8 := List.replicate IpEndpoint.sockaddrStorageSize 0
  len : Nat := IpEndpoint.sockaddrStorageSize

/-- `recvfrom` reports an address. -/
def Source.report (source : Source) (native : List UInt8) : Source where
  storage := native ++ source.storage.drop native.length
  len := native.length

/-- What a round of the loop meets: a datagram of `n` bytes, of which as many as fit are
stored, EINTR, EAGAIN with the end of the wait and what is checked after it, or another
error. -/
inductive Answer (order : ByteOrder) (protocol : Protocol) where
  | received (n : Nat) (sender : Sender order protocol)
  | interrupted
  | wouldBlock (wait : Except Error Unit) (live : Bool)
  | failed (errno : Nat)

/-- `live` is that the epoch is current and the resource not closing. -/
structure Round (order : ByteOrder) (protocol : Protocol) where
  live : Bool
  answer : Answer order protocol

/-- What `datagram_socket_impl::async_receive_from` finds before its loop: whether there
is an open resource, the socket is idle, the operation guard is made, and the operation
is started. -/
structure Start where
  isOpen : Bool
  idle : Bool
  guarded : Bool
  started : Bool

/-- How it ends; `taken` is the datagram that it has taken from the kernel. -/
structure Received (order : ByteOrder) (protocol : Protocol) where
  result : Except Error Nat
  source : Source
  taken : Option (Nat × Sender order protocol) := none

variable {order : ByteOrder} {protocol : Protocol}

/-- The loop over a buffer of `size` bytes; nothing when it goes on after the rounds. -/
def receiveLoop (size : Nat) (source : Source) :
    List (Round order protocol) → Option (Received order protocol)
  | [] => none
  | round :: rounds =>
      if !round.live then some { result := .error .operationAborted, source }
      else
        match round.answer with
        | .received n sender => some {
            result := if n > size then .error .messageSize else .ok n
            source := source.report sender.native
            taken := some (n, sender) }
        | .interrupted => receiveLoop size source rounds
        | .wouldBlock (.error e) _ => some { result := .error e, source }
        | .wouldBlock (.ok ()) live =>
            if !live then some { result := .error .operationAborted, source }
            else receiveLoop size source rounds
        | .failed errno => some { result := .error (.system errno), source }

/-- `datagram_socket_impl::async_receive_from`. -/
def implReceiveFrom (start : Start) (size : Nat) (source : Source)
    (rounds : List (Round order protocol)) : Option (Received order protocol) :=
  if !start.isOpen then some { result := .error .notOpen, source }
  else if start.idle then some { result := .error .notBound, source }
  else if !start.guarded then some { result := .error .operationAborted, source }
  else if !start.started then some { result := .error .busy, source }
  else if size = 0 then some { result := .error .invalidArgument, source }
  else receiveLoop size source rounds

/-- What `basic_datagram_socket::async_receive_from` makes of it: the result and the
endpoint that it leaves in the caller's variable. -/
def reported (received : Received order protocol) (endpoint : protocol.Endpoint order) :
    Except Error Nat × protocol.Endpoint order :=
  match received.result with
  | .error e => (.error e, endpoint)
  | .ok n =>
      match protocol.fromNative order received.source.storage received.source.len with
      | .error e => (.error (.endpoint e), endpoint)
      | .ok ep => (.ok n, ep)

/-- `basic_datagram_socket::async_receive_from`. -/
def asyncReceiveFrom (start : Start) (size : Nat) (endpoint : protocol.Endpoint order)
    (rounds : List (Round order protocol)) :
    Option (Except Error Nat × protocol.Endpoint order) :=
  (implReceiveFrom start size {} rounds).map fun received => reported received endpoint

/-- The caller gets the datagram's length and an endpoint whose native form is the
address of the sender. -/
def Delivered (n : Nat) (sender : Sender order protocol)
    (result : Option (Except Error Nat × protocol.Endpoint order)) : Prop :=
  ∃ ep, result = some (.ok n, ep) ∧ protocol.native order ep = sender.native

/-! ### The receive -/

/-- A loop that has taken a datagram ends with it. -/
theorem receiveLoop_taken {size n : Nat} {source : Source}
    {rounds : List (Round order protocol)} {received : Received order protocol}
    {sender : Sender order protocol}
    (hends : receiveLoop size source rounds = some received)
    (htaken : received.taken = some (n, sender)) :
    received.source = source.report sender.native ∧
      received.result = if n > size then .error .messageSize else .ok n := by
  induction rounds with
  | nil => nomatch hends
  | cons round rounds ih =>
      rw [receiveLoop] at hends
      split at hends
      · cases hends
        nomatch htaken
      · split at hends
        · cases hends
          cases htaken
          exact ⟨rfl, rfl⟩
        · exact ih hends
        · cases hends
          nomatch htaken
        · split at hends
          · cases hends
            nomatch htaken
          · exact ih hends
        · cases hends
          nomatch htaken

theorem implReceiveFrom_taken {start : Start} {size n : Nat} {source : Source}
    {rounds : List (Round order protocol)} {received : Received order protocol}
    {sender : Sender order protocol}
    (hends : implReceiveFrom start size source rounds = some received)
    (htaken : received.taken = some (n, sender)) :
    received.source = source.report sender.native ∧
      received.result = if n > size then .error .messageSize else .ok n := by
  rw [implReceiveFrom] at hends
  split at hends
  · cases hends
    nomatch htaken
  · split at hends
    · cases hends
      nomatch htaken
    · split at hends
      · cases hends
        nomatch htaken
      · split at hends
        · cases hends
          nomatch htaken
        · split at hends
          · cases hends
            nomatch htaken
          · exact receiveLoop_taken hends htaken

/-! ### The conversion -/

/-- The conversion of what the kernel has reported keeps the address. -/
def Converts (sender : Sender order protocol) (rest : List UInt8) : Prop :=
  ∃ ep, protocol.fromNative order (sender.native ++ rest) sender.native.length =
      .ok ep ∧
    protocol.native order ep = sender.native

theorem converts_inet {native : List UInt8}
    (hknown : familyOf order native = IpEndpoint.afInet ∨
      familyOf order native = IpEndpoint.afInet6)
    (hlength : native.length = IpEndpoint.requiredLen (familyOf order native))
    (rest : List UInt8) : Converts (.inet native hknown hlength) rest := by
  have hfits : (native ++ []).length ≤ IpEndpoint.sockaddrStorageSize := by
    rw [List.append_nil, hlength, IpEndpoint.requiredLen]
    split <;> decide
  have hconverted : IpEndpoint.EndpointStorage.fromNative order (some native) =
      .ok (.ofStructure native hknown hlength) := by
    have happend : IpEndpoint.EndpointStorage.fromNative order (some (native ++ [])) =
        .ok (.ofStructure native hknown hlength) :=
      IpEndpoint.EndpointStorage.fromNative_append hfits
    rwa [List.append_nil] at happend
  refine ⟨.ofStructure native hknown hlength, ?_, List.take_left' rfl⟩
  change IpEndpoint.EndpointStorage.fromNative order
    (some ((native ++ rest).take native.length)) = _
  rw [List.take_left' rfl]
  exact hconverted

theorem familyOf_unix (order : ByteOrder) (rest : List UInt8) :
    familyOf order (order.store 2 LocalEndpoint.afUnix.toNat ++ rest) =
      LocalEndpoint.afUnix :=
  IpEndpoint.familyOf_store order LocalEndpoint.afUnix rest

theorem convertsLocal_iff (native rest : List UInt8) :
    (∃ ep, LocalEndpoint.fromNative order (some (native ++ rest)) native.length =
        .ok ep ∧
      ep.native = native) ↔
    LocalEndpoint.Named order (native ++ rest) native.length := by
  have hlen : native.length ≤ (native ++ rest).length := by
    rw [List.length_append]
    exact Nat.le_add_right ..
  have hiff := @LocalEndpoint.fromNative_iff order _ _ hlen
  rwa [List.take_left' rfl] at hiff

theorem named_pathname {path rest : List UInt8} (hne : path ≠ []) :
    LocalEndpoint.Named order
        (order.store 2 LocalEndpoint.afUnix.toNat ++ (path ++ [0]) ++ rest)
        (order.store 2 LocalEndpoint.afUnix.toNat ++ (path ++ [0])).length ↔
      path.length < LocalEndpoint.sunPathSize := by
  have hlength : (order.store 2 LocalEndpoint.afUnix.toNat ++ (path ++ [0])).length =
      path.length + 3 := by
    rw [List.length_append, List.length_append, ByteOrder.length_store,
      List.length_singleton]
    omega
  have hsome : path.length ≠ 0 := mt List.length_eq_zero_iff.mp hne
  rw [hlength]
  constructor
  · intro hnamed
    have hmax : path.length + 3 ≤ 110 := hnamed.within.2
    change path.length < 108
    omega
  · intro hfits
    have hpath : path.length < 108 := hfits
    refine ⟨?_, ⟨?_, ?_⟩, fun _ => ?_⟩
    · rw [List.append_assoc, familyOf_unix]
    · change 2 < path.length + 3
      omega
    · change path.length + 3 ≤ 110
      omega
    · change path.length + 3 ≠ 3
      omega

theorem named_abstractName {name rest : List UInt8}
    (hfits : name.length < LocalEndpoint.sunPathSize) :
    LocalEndpoint.Named order
        (order.store 2 LocalEndpoint.afUnix.toNat ++ 0 :: name ++ rest)
        (order.store 2 LocalEndpoint.afUnix.toNat ++ 0 :: name).length ↔ name ≠ [] := by
  have hlength : (order.store 2 LocalEndpoint.afUnix.toNat ++ 0 :: name).length =
      name.length + 3 := by
    rw [List.length_append, ByteOrder.length_store, List.length_cons]
    omega
  have hmax : name.length < 108 := hfits
  rw [hlength]
  constructor
  · rintro hnamed rfl
    refine hnamed.nonempty ?_ rfl
    rw [List.append_assoc,
      List.getElem?_append_right (by rw [ByteOrder.length_store]; rfl),
      ByteOrder.length_store]
    rfl
  · intro hne
    have hsome : name.length ≠ 0 := mt List.length_eq_zero_iff.mp hne
    refine ⟨?_, ⟨?_, ?_⟩, fun _ => ?_⟩
    · rw [List.append_assoc, familyOf_unix]
    · change 2 < name.length + 3
      omega
    · change name.length + 3 ≤ 110
      omega
    · change name.length + 3 ≠ 3
      omega

/-- The senders whose addresses survive the conversion. -/
theorem converts_iff (sender : Sender order protocol) (rest : List UInt8) :
    Converts sender rest ↔ sender.named = true := by
  cases sender with
  | inet native hknown hlength =>
      exact ⟨fun _ => rfl, fun _ => converts_inet hknown hlength rest⟩
  | unnamed family =>
      refine (convertsLocal_iff _ rest).trans ⟨fun hnamed => ?_, nofun⟩
      have hpath := hnamed.within.1
      cases family with
      | false => nomatch hpath
      | true =>
          rw [Sender.native, ByteOrder.length_store] at hpath
          exact absurd hpath (lt_irrefl _)
  | pathname path hne hplain hfits =>
      refine (convertsLocal_iff _ rest).trans ?_
      rw [Sender.named, decide_eq_true_eq]
      exact named_pathname hne
  | abstractName name hfits =>
      refine (convertsLocal_iff _ rest).trans ?_
      rw [Sender.named, Bool.not_eq_true', List.isEmpty_eq_false_iff]
      exact named_abstractName hfits

/-- What becomes of a datagram that fits the buffer. -/
theorem reported_of_taken {start : Start} {size n : Nat}
    (endpoint : protocol.Endpoint order) {rounds : List (Round order protocol)}
    {received : Received order protocol} {sender : Sender order protocol}
    (hends : implReceiveFrom start size {} rounds = some received)
    (htaken : received.taken = some (n, sender)) (hn : n ≤ size) :
    ∃ rest, asyncReceiveFrom start size endpoint rounds =
      some (match protocol.fromNative order (sender.native ++ rest)
          sender.native.length with
        | .error e => (.error (.endpoint e), endpoint)
        | .ok ep => (.ok n, ep)) := by
  obtain ⟨hsource, hresult⟩ := implReceiveFrom_taken hends htaken
  rw [if_neg (not_lt.mpr hn)] at hresult
  refine ⟨({} : Source).storage.drop sender.native.length, ?_⟩
  rw [asyncReceiveFrom, hends, Option.map_some, reported, hresult, hsource]
  rfl

/-- A datagram that fits the buffer reaches the caller with its source unless the sender
has no name, a pathname that fills `sun_path`, or an empty abstract name. -/
theorem receiveFrom_delivers_iff (order : ByteOrder) (protocol : Protocol)
    (start : Start) (size : Nat) (endpoint : protocol.Endpoint order)
    (rounds : List (Round order protocol)) (received : Received order protocol)
    (hends : implReceiveFrom start size {} rounds = some received) (n : Nat)
    (sender : Sender order protocol) (htaken : received.taken = some (n, sender))
    (hn : n ≤ size) :
    Delivered n sender (asyncReceiveFrom start size endpoint rounds) ↔
      sender.named = true := by
  obtain ⟨rest, hreported⟩ := reported_of_taken endpoint hends htaken hn
  rw [hreported, ← converts_iff sender rest]
  constructor
  · rintro ⟨ep, hep, hnative⟩
    split at hep
    · cases hep
    · next converted hconverted =>
        cases hep
        exact ⟨_, hconverted, hnative⟩
  · rintro ⟨ep, hconverted, hnative⟩
    refine ⟨ep, ?_, hnative⟩
    rw [hconverted]

/-- A bound socket with a free receive operation. -/
def ready : Start where
  isOpen := true
  idle := false
  guarded := true
  started := true

/-- After a wait a datagram of five bytes comes from a socket with an abstract name. -/
def fromAbstract : List (Round .little .dgram) :=
  [{ live := true, answer := .wouldBlock (.ok ()) true },
    { live := true, answer := .received 5 (.abstractName [97] (by decide)) }]

theorem receiveFrom_delivers_fromAbstract :
    Delivered 5 (.abstractName [97] (by decide)) (asyncReceiveFrom ready 16
      (LocalEndpoint.Endpoint.unset .little) fromAbstract) :=
  (receiveFrom_delivers_iff .little .dgram ready 16 (.unset .little) fromAbstract _ rfl
    5 _ rfl (by decide)).mpr rfl

/-- A datagram of five bytes comes from a socket without a name. -/
def fromUnnamed : List (Round .little .dgram) :=
  [{ live := true, answer := .received 5 (.unnamed false) }]

theorem not_delivers_fromUnnamed :
    ¬ ∀ (order : ByteOrder) (protocol : Protocol) (start : Start) (size : Nat)
      (endpoint : protocol.Endpoint order) (rounds : List (Round order protocol))
      (received : Received order protocol),
      implReceiveFrom start size {} rounds = some received →
        ∀ n sender, received.taken = some (n, sender) → n ≤ size →
          Delivered n sender (asyncReceiveFrom start size endpoint rounds) := by
  intro hall
  obtain ⟨ep, hep, -⟩ := hall .little .dgram ready 16 (.unset .little) fromUnnamed _ rfl
    5 (.unnamed false) rfl (by decide)
  nomatch hep

end DatagramSource

end Iocoro
