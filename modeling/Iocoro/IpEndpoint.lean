/-
`endpoint_storage` and its three encodings: the address with the port, the native
`sockaddr` bytes, and the text.  The layout of the structures is that of Linux, on a
machine of either byte order.
-/
import Mathlib.Data.List.TakeWhile
import Mathlib.Data.Vector.Basic
import Iocoro.ByteOrder

namespace Iocoro

namespace IpEndpoint

inductive Error where
  | invalidArgument
  | invalidEndpoint
  | unsupportedAddressFamily
deriving DecidableEq, Repr

abbrev Bytes (n : Nat) : Type := List.Vector UInt8 n

/-! ### Text -/

def nul : Char := Char.ofNat 0

/-- What a C string holds in front of its terminator. -/
abbrev CString : Type := { text : List Char // nul ∉ text }

/-- `std::string::c_str`, as a function that takes a C string sees it. -/
def cStr (s : List Char) : CString :=
  ⟨s.takeWhile (· != nul), fun hmem => by simpa using List.mem_takeWhile_imp hmem⟩

/-- `std::string::find` with a character. -/
def find (s : List Char) (c : Char) : Option Nat :=
  s.findIdx? (· == c)

/-- `std::string::rfind` with a character. -/
def rfind (s : List Char) (c : Char) : Option Nat :=
  (s.reverse.findIdx? (· == c)).map (s.length - 1 - ·)

/-- `std::to_string` of an unsigned number. -/
def toDecimal (n : Nat) : List Char :=
  Nat.toDigits 10 n

/-- `std::from_chars` into 32 bits: the number and what follows its digits, or
nothing for the errors. -/
def fromChars (s : List Char) : Option (Nat × List Char) :=
  let digits := s.takeWhile Char.isDigit
  if digits.isEmpty then none
  else
    let value := Nat.ofDigitChars 10 digits 0
    if value < 2 ^ 32 then some (value, s.dropWhile Char.isDigit) else none

def parsePort (p : List Char) : Except Error UInt16 :=
  if p.isEmpty then .error .invalidArgument
  else
    match fromChars p with
    | some (value, []) =>
        if value > 65535 then .error .invalidArgument else .ok (UInt16.ofNat value)
    | _ => .error .invalidArgument

/-! ### Addresses -/

structure AddressV4 where
  bytes : Bytes 4
deriving DecidableEq

structure AddressV6 where
  bytes : Bytes 16
  scopeId : UInt32 := 0
deriving DecidableEq

/-- `ip::address`. -/
inductive Address where
  | v4 (addr : AddressV4)
  | v6 (addr : AddressV6)
deriving DecidableEq

/-- `inet_ntop` and `inet_pton` for the two families; nothing for a failure. -/
structure Inet where
  ntop4 : Bytes 4 → Option CString
  pton4 : CString → Option (Bytes 4)
  ntop6 : Bytes 16 → Option CString
  pton6 : CString → Option (Bytes 16)

/-- What the code relies on. -/
structure Inet.Documented (inet : Inet) : Prop where
  roundTrip4 : ∀ b, (inet.ntop4 b).bind inet.pton4 = some b
  roundTrip6 : ∀ b, (inet.ntop6 b).bind inet.pton6 = some b
  plain4 : ∀ b text, inet.ntop4 b = some text →
    '%' ∉ text.val ∧ ']' ∉ text.val ∧ '[' ∉ text.val ∧ ':' ∉ text.val
  plain6 : ∀ b text, inet.ntop6 b = some text →
    '%' ∉ text.val ∧ ']' ∉ text.val ∧ '[' ∉ text.val

def AddressV4.toString (inet : Inet) (a : AddressV4) : List Char :=
  match inet.ntop4 a.bytes with
  | none => "0.0.0.0".toList
  | some buf => buf.val

def AddressV4.fromString (inet : Inet) (s : List Char) : Except Error AddressV4 :=
  match inet.pton4 (cStr s) with
  | none => .error .invalidArgument
  | some bytes => .ok { bytes }

def AddressV6.toString (inet : Inet) (a : AddressV6) : List Char :=
  match inet.ntop6 a.bytes with
  | none => "::".toList
  | some buf =>
      if a.scopeId ≠ 0 then buf.val ++ '%' :: toDecimal a.scopeId.toNat else buf.val

/-- The last step of `address_v6::from_string`. -/
def AddressV6.ofParts (inet : Inet) (ipPart : List Char) (scopeId : UInt32) :
    Except Error AddressV6 :=
  match inet.pton6 (cStr ipPart) with
  | none => .error .invalidArgument
  | some bytes => .ok { bytes, scopeId }

def AddressV6.fromString (inet : Inet) (s : List Char) : Except Error AddressV6 :=
  match find s '%' with
  | some pos =>
      let scopeStr := s.drop (pos + 1)
      if scopeStr.isEmpty then .error .invalidArgument
      else
        match fromChars scopeStr with
        | some (scope, []) => AddressV6.ofParts inet (s.take pos) (UInt32.ofNat scope)
        | _ => .error .invalidArgument
  | none => AddressV6.ofParts inet s 0

def Address.toString (inet : Inet) : Address → List Char
  | .v4 addr => addr.toString inet
  | .v6 addr => addr.toString inet

/-! ### Native structures -/

/-- `htons`: the number whose bytes on this machine are those in network order. -/
def htons (order : ByteOrder) (x : UInt16) : UInt16 :=
  UInt16.ofNat (order.load (ByteOrder.big.store 2 x.toNat))

def ntohs (order : ByteOrder) (x : UInt16) : UInt16 :=
  UInt16.ofNat (ByteOrder.big.load (order.store 2 x.toNat))

def afInet : UInt16 := 2

def afInet6 : UInt16 := 10

def sockaddrInSize : Nat := 16

def sockaddrIn6Size : Nat := 28

def sockaddrStorageSize : Nat := 128

/-- The bytes of a `sockaddr_in`. -/
def sockaddrIn (order : ByteOrder) (family port : UInt16) (addr : Bytes 4) :
    List UInt8 :=
  order.store 2 family.toNat ++ order.store 2 port.toNat ++ addr.toList ++
    List.replicate 8 0

/-- The bytes of a `sockaddr_in6` without flow information. -/
def sockaddrIn6 (order : ByteOrder) (family port : UInt16) (addr : Bytes 16)
    (scopeId : UInt32) : List UInt8 :=
  order.store 2 family.toNat ++ order.store 2 port.toNat ++ order.store 4 0 ++
    addr.toList ++ order.store 4 scopeId.toNat

/-- A `sockaddr_storage` set to zero with a structure copied to its start. -/
def storageOf (native : List UInt8) (hfits : native.length ≤ sockaddrStorageSize) :
    Bytes sockaddrStorageSize :=
  ⟨native ++ List.replicate (sockaddrStorageSize - native.length) 0, by
    rw [List.length_append, List.length_replicate]
    omega⟩

/-- The bytes of a member of a structure. -/
def member (bytes : List UInt8) (offset size : Nat) : List UInt8 :=
  (bytes.drop offset).take size

theorem length_member {bytes : List UInt8} {offset size : Nat}
    (hwithin : offset + size ≤ bytes.length) :
    (member bytes offset size).length = size := by
  rw [member, List.length_take, List.length_drop]
  omega

/-- `sa_family`, which every structure has at its start. -/
def familyOf (order : ByteOrder) (bytes : List UInt8) : UInt16 :=
  UInt16.ofNat (order.load (member bytes 0 2))

/-- The size that belongs to a family. -/
def requiredLen (family : UInt16) : Nat :=
  if family = afInet then sockaddrInSize else sockaddrIn6Size

/-- `endpoint_storage`, with the family and the size that its assertions ask for. -/
structure EndpointStorage (order : ByteOrder) where
  storage : Bytes sockaddrStorageSize
  size : Nat
  known : familyOf order storage.toList = afInet ∨
    familyOf order storage.toList = afInet6
  canonical : size = requiredLen (familyOf order storage.toList)
deriving DecidableEq

namespace EndpointStorage

variable {order : ByteOrder}

def family (e : EndpointStorage order) : UInt16 :=
  familyOf order e.storage.toList

theorem length_storage_member (e : EndpointStorage order) {offset size : Nat}
    (hwithin : offset + size ≤ sockaddrStorageSize) :
    (member e.storage.toList offset size).length = size := by
  apply length_member
  rwa [List.Vector.toList_length]

/-- `endpoint_storage::address`.  The addresses are at offsets 4 and 8 of the two
structures, the scope at offset 24. -/
def address (e : EndpointStorage order) : Address :=
  if e.family = afInet then
    .v4 { bytes := ⟨member e.storage.toList 4 4, length_storage_member e (by decide)⟩ }
  else
    .v6 {
      bytes := ⟨member e.storage.toList 8 16, length_storage_member e (by decide)⟩
      scopeId := UInt32.ofNat (order.load (member e.storage.toList 24 4)) }

/-- `endpoint_storage::port`; the port is at offset 2 of both structures. -/
def port (e : EndpointStorage order) : UInt16 :=
  ntohs order (UInt16.ofNat (order.load (member e.storage.toList 2 2)))

/-- `to_native` into a buffer; nothing is a null pointer.  It returns the number of
bytes and the buffer. -/
def toNative (e : EndpointStorage order) (addr : Option (List UInt8)) :
    Except Error (Nat × List UInt8) :=
  match addr with
  | none => .error .invalidArgument
  | some buf =>
      if buf.length = 0 then .error .invalidArgument
      else if buf.length < e.size then .error .invalidEndpoint
      else .ok (e.size, e.storage.toList.take e.size ++ buf.drop e.size)

/-- `operator==`. -/
def equals (a b : EndpointStorage order) : Bool :=
  if a.family ≠ b.family then false
  else decide (a.address = b.address) && decide (a.port = b.port)

def toString (inet : Inet) (e : EndpointStorage order) : List Char :=
  let addrStr := e.address.toString inet
  if e.family = afInet6 then
    '[' :: addrStr ++ ']' :: ':' :: toDecimal e.port.toNat
  else addrStr ++ ':' :: toDecimal e.port.toNat

end EndpointStorage

theorem length_sockaddrIn (order : ByteOrder) (family port : UInt16) (addr : Bytes 4) :
    (sockaddrIn order family port addr).length = sockaddrInSize := by
  simp [sockaddrIn, sockaddrInSize]

theorem length_sockaddrIn6 (order : ByteOrder) (family port : UInt16) (addr : Bytes 16)
    (scopeId : UInt32) :
    (sockaddrIn6 order family port addr scopeId).length = sockaddrIn6Size := by
  simp [sockaddrIn6, sockaddrIn6Size]

@[simp] theorem toList_storageOf {native : List UInt8}
    (hfits : native.length ≤ sockaddrStorageSize) :
    (storageOf native hfits).toList =
      native ++ List.replicate (sockaddrStorageSize - native.length) 0 := rfl

/-- A member within the structure copied last. -/
theorem member_append {native rest : List UInt8} {offset size : Nat}
    (hwithin : offset + size ≤ native.length) :
    member (native ++ rest) offset size = member native offset size := by
  rw [member, member, List.drop_append_of_le_length (by omega),
    List.take_append_of_le_length (by rw [List.length_drop]; omega)]

theorem familyOf_append (order : ByteOrder) {native rest : List UInt8}
    (hwithin : 2 ≤ native.length) :
    familyOf order (native ++ rest) = familyOf order native := by
  rw [familyOf, member_append hwithin, familyOf]

theorem load_store16 (order : ByteOrder) (x : UInt16) :
    UInt16.ofNat (order.load (order.store 2 x.toNat)) = x := by
  rw [ByteOrder.load_store, Nat.mod_eq_of_lt (show x.toNat < 256 ^ 2 from x.toNat_lt),
    UInt16.ofNat_toNat]

theorem load_store32 (order : ByteOrder) (x : UInt32) :
    UInt32.ofNat (order.load (order.store 4 x.toNat)) = x := by
  rw [ByteOrder.load_store, Nat.mod_eq_of_lt (show x.toNat < 256 ^ 4 from x.toNat_lt),
    UInt32.ofNat_toNat]

theorem member_middle {before field after : List UInt8} {offset size : Nat}
    (hoffset : before.length = offset) (hsize : field.length = size) :
    member (before ++ (field ++ after)) offset size = field := by
  rw [member, List.drop_left' hoffset, List.take_left' hsize]

theorem member_end {before field : List UInt8} {offset size : Nat}
    (hoffset : before.length = offset) (hsize : field.length = size) :
    member (before ++ field) offset size = field := by
  rw [member, List.drop_left' hoffset, ← hsize, List.take_length]

theorem member_start {field after : List UInt8} {size : Nat}
    (hsize : field.length = size) : member (field ++ after) 0 size = field := by
  rw [member, List.drop_zero, List.take_left' hsize]

theorem familyOf_store (order : ByteOrder) (family : UInt16) (rest : List UInt8) :
    familyOf order (order.store 2 family.toNat ++ rest) = family := by
  rw [familyOf, member_start (order.length_store 2 _), load_store16]

theorem familyOf_sockaddrIn (order : ByteOrder) (family port : UInt16)
    (addr : Bytes 4) :
    familyOf order (sockaddrIn order family port addr) = family := by
  rw [sockaddrIn, List.append_assoc, List.append_assoc, familyOf_store]

theorem familyOf_sockaddrIn6 (order : ByteOrder) (family port : UInt16)
    (addr : Bytes 16) (scopeId : UInt32) :
    familyOf order (sockaddrIn6 order family port addr scopeId) = family := by
  simp only [sockaddrIn6, List.append_assoc, familyOf_store]

theorem two_le_requiredLen (family : UInt16) : 2 ≤ requiredLen family := by
  rw [requiredLen]
  split <;> decide

theorem familyOf_take (order : ByteOrder) {bytes : List UInt8} {size : Nat}
    (hsize : 2 ≤ size) : familyOf order (bytes.take size) = familyOf order bytes := by
  rw [familyOf, familyOf, member, member, List.drop_zero, List.drop_zero,
    List.take_take, Nat.min_eq_left hsize]

/-- Bytes stored in one order and read in the other give the number back when the same
is done the other way. -/
theorem load_store_swapped (a b : ByteOrder) (x : UInt16) :
    UInt16.ofNat (b.load (a.store 2
      (UInt16.ofNat (a.load (b.store 2 x.toNat))).toNat)) = x := by
  have hlt := a.load_lt (b.store 2 x.toNat)
  have hback := a.store_load (b.store 2 x.toNat)
  rw [ByteOrder.length_store] at hlt hback
  rw [UInt16.toNat_ofNat_of_lt' hlt, hback, load_store16]

theorem ntohs_htons (order : ByteOrder) (x : UInt16) :
    ntohs order (htons order x) = x :=
  load_store_swapped order .big x

theorem htons_ntohs (order : ByteOrder) (x : UInt16) :
    htons order (ntohs order x) = x :=
  load_store_swapped .big order x

namespace EndpointStorage

/-- The storage after a complete structure of a known family was copied to it. -/
def ofStructure {order : ByteOrder} (native : List UInt8)
    (hknown : familyOf order native = afInet ∨ familyOf order native = afInet6)
    (hlength : native.length = requiredLen (familyOf order native)) :
    EndpointStorage order :=
  have hfits : native.length ≤ sockaddrStorageSize := by
    rw [hlength, requiredLen]
    split <;> decide
  have hwithin : 2 ≤ native.length := by
    rw [hlength]
    exact two_le_requiredLen _
  { storage := storageOf native hfits
    size := native.length
    known := by
      rw [toList_storageOf, familyOf_append order hwithin]
      exact hknown
    canonical := by
      rw [toList_storageOf, familyOf_append order hwithin]
      exact hlength }

end EndpointStorage

namespace EndpointStorage

variable {order : ByteOrder}

/-- `init_v4`. -/
def initV4 (order : ByteOrder) (addr : AddressV4) (port : UInt16) :
    EndpointStorage order :=
  ofStructure (sockaddrIn order afInet (htons order port) addr.bytes)
    (.inl (familyOf_sockaddrIn ..))
    (by rw [familyOf_sockaddrIn, length_sockaddrIn]; rfl)

/-- `init_v6`. -/
def initV6 (order : ByteOrder) (addr : AddressV6) (port : UInt16) :
    EndpointStorage order :=
  ofStructure (sockaddrIn6 order afInet6 (htons order port) addr.bytes addr.scopeId)
    (.inr (familyOf_sockaddrIn6 ..))
    (by rw [familyOf_sockaddrIn6, length_sockaddrIn6]; rfl)

/-- `endpoint_storage(ip::address, port)`. -/
def make (order : ByteOrder) (addr : Address) (port : UInt16) : EndpointStorage order :=
  match addr with
  | .v4 addr => initV4 order addr port
  | .v6 addr => initV6 order addr port

/-- `from_native` of a buffer with its length; nothing is a null pointer. -/
def fromNative (order : ByteOrder) (addr : Option (List UInt8)) :
    Except Error (EndpointStorage order) :=
  match addr with
  | none => .error .invalidArgument
  | some bytes =>
      if bytes.length = 0 then .error .invalidArgument
      else if bytes.length > sockaddrStorageSize then .error .invalidEndpoint
      else if hfamily : familyOf order bytes ≠ afInet ∧
          familyOf order bytes ≠ afInet6 then
        .error .unsupportedAddressFamily
      else if hlength : bytes.length < requiredLen (familyOf order bytes) then
        .error .invalidEndpoint
      else
        .ok (ofStructure (bytes.take (requiredLen (familyOf order bytes)))
          (by
            rw [familyOf_take order (two_le_requiredLen _)]
            simpa only [not_and_or, not_not] using hfamily)
          (by
            rw [familyOf_take order (two_le_requiredLen _), List.length_take]
            omega))

/-- `from_string` of the form with brackets. -/
def fromBracketed (inet : Inet) (order : ByteOrder) (s : List Char) :
    Except Error (EndpointStorage order) :=
  match find s ']' with
  | none => .error .invalidArgument
  | some close =>
      if close + 2 > s.length ∨ s[close + 1]? ≠ some ':' then .error .invalidArgument
      else do
        let port ← parsePort (s.drop (close + 2))
        let a6 ← AddressV6.fromString inet ((s.drop 1).take (close - 1))
        return initV6 order a6 port

def fromPlain (inet : Inet) (order : ByteOrder) (s : List Char) :
    Except Error (EndpointStorage order) :=
  match rfind s ':' with
  | none => .error .invalidArgument
  | some pos =>
      let host := s.take pos
      if (find host ':').isSome then .error .invalidArgument
      else do
        let port ← parsePort (s.drop (pos + 1))
        let a4 ← AddressV4.fromString inet host
        return initV4 order a4 port

/-- `endpoint_storage::from_string`. -/
def fromString (inet : Inet) (order : ByteOrder) (s : List Char) :
    Except Error (EndpointStorage order) :=
  match s with
  | [] => .error .invalidArgument
  | front :: _ =>
      if front = '[' then fromBracketed inet order s else fromPlain inet order s

/-! ### Native bytes -/

section Structure

variable {native : List UInt8}
  {hknown : familyOf order native = afInet ∨ familyOf order native = afInet6}
  {hlength : native.length = requiredLen (familyOf order native)}

theorem toList_ofStructure :
    (ofStructure native hknown hlength).storage.toList =
      native ++ List.replicate (sockaddrStorageSize - native.length) 0 := rfl

theorem member_ofStructure {offset size : Nat}
    (hwithin : offset + size ≤ native.length) :
    member (ofStructure native hknown hlength).storage.toList offset size =
      member native offset size := by
  rw [toList_ofStructure, member_append hwithin]

@[simp] theorem family_ofStructure :
    (ofStructure native hknown hlength).family = familyOf order native := by
  rw [family, toList_ofStructure, familyOf_append]
  rw [hlength]
  exact two_le_requiredLen _

@[simp] theorem size_ofStructure :
    (ofStructure native hknown hlength).size = native.length := rfl

theorem toNative_ofStructure {buf : List UInt8} (hbuf : native.length ≤ buf.length) :
    (ofStructure native hknown hlength).toNative (some buf) =
      .ok (native.length, native ++ buf.drop native.length) := by
  have hpos : 2 ≤ native.length := by
    rw [hlength]
    exact two_le_requiredLen _
  have hsize : (ofStructure native hknown hlength).size = native.length := rfl
  rw [toNative, if_neg (by omega), if_neg (by rw [hsize]; omega), hsize,
    toList_ofStructure, List.take_left' rfl]

/-- What follows a complete structure is ignored. -/
theorem fromNative_append {more : List UInt8}
    (hfits : (native ++ more).length ≤ sockaddrStorageSize) :
    fromNative order (some (native ++ more)) =
      .ok (ofStructure native hknown hlength) := by
  have hpos : 2 ≤ native.length := by
    rw [hlength]
    exact two_le_requiredLen _
  have hfamily : familyOf order (native ++ more) = familyOf order native :=
    familyOf_append order hpos
  have htake : (native ++ more).take (requiredLen (familyOf order (native ++ more))) =
      native := by
    rw [hfamily, ← hlength, List.take_left' rfl]
  have hsome : (native ++ more).length ≠ 0 := by
    rw [List.length_append]
    omega
  have hsupported : ¬(familyOf order (native ++ more) ≠ afInet ∧
      familyOf order (native ++ more) ≠ afInet6) := by
    rw [hfamily]
    exact fun hneither => hknown.elim hneither.1 hneither.2
  have hcomplete : ¬(native ++ more).length <
      requiredLen (familyOf order (native ++ more)) := by
    rw [hfamily, ← hlength, List.length_append]
    omega
  rw [fromNative, if_neg hsome, if_neg (by omega), dif_neg hsupported,
    dif_neg hcomplete]
  congr 2

end Structure

/-- An accepted native buffer is one complete structure and what follows it. -/
theorem fromNative_cases {bytes : List UInt8} {e : EndpointStorage order}
    (haccepted : fromNative order (some bytes) = .ok e) :
    ∃ native more hknown hlength, bytes = native ++ more ∧
      e = ofStructure native hknown hlength := by
  simp only [fromNative] at haccepted
  split at haccepted
  next => nomatch haccepted
  next =>
    split at haccepted
    next => nomatch haccepted
    next =>
      split at haccepted
      next => nomatch haccepted
      next =>
        split at haccepted
        next => nomatch haccepted
        next =>
          obtain rfl := Except.ok.inj haccepted
          exact ⟨_, bytes.drop (requiredLen (familyOf order bytes)), _, _,
            (List.take_append_drop ..).symm, rfl⟩

@[simp] theorem family_initV4 (addr : AddressV4) (port : UInt16) :
    (initV4 order addr port).family = afInet := by
  rw [initV4, family_ofStructure, familyOf_sockaddrIn]

@[simp] theorem family_initV6 (addr : AddressV6) (port : UInt16) :
    (initV6 order addr port).family = afInet6 := by
  rw [initV6, family_ofStructure, familyOf_sockaddrIn6]

theorem port_of_member {e : EndpointStorage order} {port : UInt16}
    (hmember : member e.storage.toList 2 2 = order.store 2 (htons order port).toNat) :
    e.port = port := by
  rw [EndpointStorage.port, hmember, load_store16, ntohs_htons]

theorem port_initV4 (addr : AddressV4) (port : UInt16) :
    (initV4 order addr port).port = port := by
  apply port_of_member
  rw [initV4, member_ofStructure (by rw [length_sockaddrIn]; decide), sockaddrIn]
  simp only [List.append_assoc]
  exact member_middle (order.length_store 2 _) (order.length_store 2 _)

theorem port_initV6 (addr : AddressV6) (port : UInt16) :
    (initV6 order addr port).port = port := by
  apply port_of_member
  rw [initV6, member_ofStructure (by rw [length_sockaddrIn6]; decide), sockaddrIn6]
  simp only [List.append_assoc]
  exact member_middle (order.length_store 2 _) (order.length_store 2 _)

theorem address_initV4 (addr : AddressV4) (port : UInt16) :
    (initV4 order addr port).address = .v4 addr := by
  have hmember : member (initV4 order addr port).storage.toList 4 4 =
      addr.bytes.toList := by
    rw [initV4, member_ofStructure (by rw [length_sockaddrIn]; decide), sockaddrIn,
      List.append_assoc]
    exact member_middle (by simp) addr.bytes.toList_length
  rw [address, if_pos (family_initV4 addr port)]
  congr 2
  exact Subtype.ext hmember

theorem address_initV6 (addr : AddressV6) (port : UInt16) :
    (initV6 order addr port).address = .v6 addr := by
  have hbytes : member (initV6 order addr port).storage.toList 8 16 =
      addr.bytes.toList := by
    rw [initV6, member_ofStructure (by rw [length_sockaddrIn6]; decide), sockaddrIn6,
      List.append_assoc]
    exact member_middle (by simp) addr.bytes.toList_length
  have hscope : member (initV6 order addr port).storage.toList 24 4 =
      order.store 4 addr.scopeId.toNat := by
    rw [initV6, member_ofStructure (by rw [length_sockaddrIn6]; decide), sockaddrIn6]
    exact member_end (by simp) (order.length_store 4 _)
  rw [address, if_neg (by rw [family_initV6]; decide)]
  congr 1
  have hext : ∀ a b : AddressV6, a.bytes = b.bytes → a.scopeId = b.scopeId → a = b := by
    rintro ⟨_, _⟩ ⟨_, _⟩ rfl rfl
    rfl
  exact hext _ _ (Subtype.ext hbytes) (by rw [hscope, load_store32])

theorem address_make (addr : Address) (port : UInt16) :
    (make order addr port).address = addr := by
  cases addr with
  | v4 addr => exact address_initV4 addr port
  | v6 addr => exact address_initV6 addr port

theorem port_make (addr : Address) (port : UInt16) :
    (make order addr port).port = port := by
  cases addr with
  | v4 addr => exact port_initV4 addr port
  | v6 addr => exact port_initV6 addr port

theorem equals_iff {a b : EndpointStorage order} :
    a.equals b = true ↔
      a.family = b.family ∧ a.address = b.address ∧ a.port = b.port := by
  rw [equals]
  split
  next hne => simp [hne]
  next heq => simp [not_not.mp heq]

theorem family_make_address (e : EndpointStorage order) (port : UInt16) :
    (make order e.address port).family = e.family := by
  by_cases hfamily : e.family = afInet
  · rw [address, if_pos hfamily, make, family_initV4, hfamily]
  · rw [address, if_neg hfamily, make, family_initV6]
    exact (e.known.resolve_left hfamily).symm

/-- The address and the port hold all that `operator==` looks at. -/
theorem make_equals (e : EndpointStorage order) :
    (make order e.address e.port).equals e = true :=
  equals_iff.mpr ⟨family_make_address e e.port, address_make _ _, port_make _ _⟩

theorem make_eq_ofStructure (order : ByteOrder) (addr : Address) (port : UInt16) :
    ∃ native,
      ∃ hknown : familyOf order native = afInet ∨ familyOf order native = afInet6,
      ∃ hlength, make order addr port = ofStructure native hknown hlength := by
  cases addr with
  | v4 addr =>
      exact ⟨_, .inl (familyOf_sockaddrIn ..),
        by rw [familyOf_sockaddrIn, length_sockaddrIn]; rfl, rfl⟩
  | v6 addr =>
      exact ⟨_, .inr (familyOf_sockaddrIn6 ..),
        by rw [familyOf_sockaddrIn6, length_sockaddrIn6]; rfl, rfl⟩

end EndpointStorage

/-! ### Text -/

theorem cStr_val (text : CString) : cStr text.val = text := by
  refine Subtype.ext (List.takeWhile_eq_self_iff.mpr fun c hc => ?_)
  have hne : c ≠ nul := fun heq => text.property (heq ▸ hc)
  simpa using hne

theorem isDigit_of_mem_toDecimal {n : Nat} {c : Char} (hc : c ∈ toDecimal n) :
    c.isDigit = true :=
  Nat.isDigit_of_mem_toDigits (by decide) (by decide) hc

theorem not_mem_toDecimal {n : Nat} {c : Char} (hc : c.isDigit = false) :
    c ∉ toDecimal n := fun hmem => by
  rw [isDigit_of_mem_toDecimal hmem] at hc
  nomatch hc

/-- The number that was written is read back, and what follows it is left. -/
theorem fromChars_toDecimal (n : Nat) (rest : List Char) (hn : n < 2 ^ 32)
    (hrest : ∀ c ∈ rest.head?, c.isDigit = false) :
    fromChars (toDecimal n ++ rest) = some (n, rest) := by
  have hdigits : ∀ c ∈ toDecimal n, c.isDigit = true := fun c =>
    isDigit_of_mem_toDecimal
  have hstop : rest.takeWhile Char.isDigit = [] ∧
      rest.dropWhile Char.isDigit = rest := by
    cases rest with
    | nil => exact ⟨rfl, rfl⟩
    | cons c rest =>
        have hc := hrest c rfl
        simp [hc]
  have hvalue : Nat.ofDigitChars 10 (toDecimal n) 0 = n := Nat.ofDigitChars_ten_toDigits
  have hsome : ¬(toDecimal n).isEmpty = true := by
    simp [toDecimal]
  rw [fromChars, List.takeWhile_append_of_pos hdigits,
    List.dropWhile_append_of_pos hdigits, hstop.1, hstop.2, List.append_nil,
    if_neg hsome, hvalue, if_pos hn]

theorem find_append (before after : List Char) {c : Char} (hc : c ∉ before) :
    find (before ++ c :: after) c = some before.length := by
  have hnone : before.findIdx? (· == c) = none := by
    rw [List.findIdx?_eq_none_iff]
    intro d hd
    exact beq_eq_false_iff_ne.mpr fun heq => hc (heq ▸ hd)
  rw [find, List.findIdx?_append, hnone, List.findIdx?_cons]
  simp

theorem find_eq_none {s : List Char} {c : Char} (hc : c ∉ s) : find s c = none := by
  rw [find, List.findIdx?_eq_none_iff]
  intro d hd
  exact beq_eq_false_iff_ne.mpr fun heq => hc (heq ▸ hd)

theorem rfind_append (before after : List Char) {c : Char} (hc : c ∉ after) :
    rfind (before ++ c :: after) c = some before.length := by
  have hreverse : (before ++ c :: after).reverse =
      after.reverse ++ c :: before.reverse := by
    simp
  have hfind := find_append after.reverse before.reverse
    (fun hmem => hc (List.mem_reverse.mp hmem))
  rw [find] at hfind
  rw [rfind, hreverse, hfind]
  simp

theorem drop_append_cons (before after : List Char) (c : Char) :
    (before ++ c :: after).drop (before.length + 1) = after := by
  rw [List.append_cons, List.drop_left' (by simp)]

theorem parsePort_toDecimal (port : UInt16) :
    parsePort (toDecimal port.toNat) = .ok port := by
  have hlt : port.toNat < 65536 := port.toNat_lt
  have hread := fromChars_toDecimal port.toNat [] (by omega) nofun
  rw [List.append_nil] at hread
  have hsome : ¬(toDecimal port.toNat).isEmpty = true := by
    simp [toDecimal]
  rw [parsePort, if_neg hsome, hread]
  simp only
  rw [if_neg (by omega), UInt16.ofNat_toNat]

namespace EndpointStorage

variable {inet : Inet} {order : ByteOrder}

theorem fromPlain_eq {b p : List Char} (hb : ':' ∉ b) (hp : ':' ∉ p) :
    fromPlain inet order (b ++ ':' :: p) = (do
      let port ← parsePort p
      let a4 ← AddressV4.fromString inet b
      return initV4 order a4 port) := by
  rw [fromPlain, rfind_append b p hp]
  simp only [drop_append_cons, List.take_left' rfl, find_eq_none hb]
  rfl

theorem fromBracketed_eq {h p : List Char} (hh : ']' ∉ h) :
    fromBracketed inet order ('[' :: h ++ ']' :: ':' :: p) = (do
      let port ← parsePort p
      let a6 ← AddressV6.fromString inet h
      return initV6 order a6 port) := by
  have hclose : ']' ∉ '[' :: h := by
    rw [List.mem_cons]
    rintro (heq | hmem)
    · nomatch heq
    · exact hh hmem
  have hrest := drop_append_cons ('[' :: h) (':' :: p) ']'
  have hcolon : ('[' :: h ++ ']' :: ':' :: p)[('[' :: h).length + 1]? = some ':' := by
    rw [← List.head?_drop, hrest]
    rfl
  have hport : ('[' :: h ++ ']' :: ':' :: p).drop (('[' :: h).length + 2) = p := by
    rw [← List.drop_drop (i := 1), hrest]
    rfl
  have hhost : (('[' :: h ++ ']' :: ':' :: p).drop 1).take (('[' :: h).length - 1) =
      h := List.take_left' rfl
  have haccepted : ¬(('[' :: h).length + 2 > ('[' :: h ++ ']' :: ':' :: p).length ∨
      ('[' :: h ++ ']' :: ':' :: p)[('[' :: h).length + 1]? ≠ some ':') := by
    rintro (hshort | hmissing)
    · simp only [List.length_append, List.length_cons] at hshort
      omega
    · exact hmissing hcolon
  rw [fromBracketed, find_append _ _ hclose]
  simp only
  rw [if_neg haccepted, hport, hhost]

end EndpointStorage

section Text

variable {inet : Inet} (hinet : inet.Documented)

include hinet

theorem AddressV4.toString_cases (a : AddressV4) :
    ∃ text, a.toString inet = text.val ∧ inet.ntop4 a.bytes = some text ∧
      inet.pton4 text = some a.bytes := by
  have hround := hinet.roundTrip4 a.bytes
  obtain ⟨text, htext, hback⟩ := Option.bind_eq_some_iff.mp hround
  exact ⟨text, by rw [AddressV4.toString, htext], htext, hback⟩

theorem AddressV4.fromString_toString (a : AddressV4) :
    AddressV4.fromString inet (a.toString inet) = .ok a := by
  obtain ⟨text, hstring, _, hback⟩ := a.toString_cases hinet
  rw [AddressV4.fromString, hstring, cStr_val, hback]

theorem AddressV6.ntop6_cases (a : AddressV6) :
    ∃ text, inet.ntop6 a.bytes = some text ∧ inet.pton6 text = some a.bytes :=
  Option.bind_eq_some_iff.mp (hinet.roundTrip6 a.bytes)

theorem AddressV6.fromString_toString (a : AddressV6) :
    AddressV6.fromString inet (a.toString inet) = .ok a := by
  obtain ⟨text, htext, hback⟩ := a.ntop6_cases hinet
  have hplain := (hinet.plain6 _ _ htext).1
  have hparts : ∀ scopeId, AddressV6.ofParts inet text.val scopeId =
      .ok { bytes := a.bytes, scopeId } := by
    intro scopeId
    rw [AddressV6.ofParts, cStr_val, hback]
  rw [AddressV6.toString, htext]
  simp only
  split
  next hscope =>
    have hread := fromChars_toDecimal a.scopeId.toNat []
      a.scopeId.toNat_lt nofun
    rw [List.append_nil] at hread
    have hsome : ¬(toDecimal a.scopeId.toNat).isEmpty = true := by
      simp [toDecimal]
    rw [AddressV6.fromString, find_append _ _ hplain]
    simp only [drop_append_cons, List.take_left' rfl]
    rw [if_neg hsome, hread]
    simp only
    rw [hparts, UInt32.ofNat_toNat]
  next hscope =>
    rw [AddressV6.fromString, find_eq_none hplain]
    simp only
    rw [hparts, ← not_not.mp hscope]

theorem AddressV6.not_mem_toString (a : AddressV6) : ']' ∉ a.toString inet := by
  obtain ⟨text, htext, _⟩ := a.ntop6_cases hinet
  have hplain := (hinet.plain6 _ _ htext).2.1
  rw [AddressV6.toString, htext]
  simp only
  split
  next =>
    rw [List.mem_append, List.mem_cons]
    rintro (hmem | hmem | hmem)
    · exact hplain hmem
    · nomatch hmem
    · exact not_mem_toDecimal rfl hmem
  next => exact hplain

namespace EndpointStorage

variable {order : ByteOrder}

theorem fromPlain_append (a : AddressV4) (port : UInt16) :
    fromPlain inet order (a.toString inet ++ ':' :: toDecimal port.toNat) =
      .ok (initV4 order a port) := by
  obtain ⟨text, hstring, htext, _⟩ := a.toString_cases hinet
  have hcolon : ':' ∉ a.toString inet := by
    rw [hstring]
    exact (hinet.plain4 _ _ htext).2.2.2
  rw [fromPlain_eq hcolon (not_mem_toDecimal rfl), parsePort_toDecimal,
    a.fromString_toString hinet]
  rfl

theorem fromBracketed_append (a : AddressV6) (port : UInt16) :
    fromBracketed inet order
        ('[' :: a.toString inet ++ ']' :: ':' :: toDecimal port.toNat) =
      .ok (initV6 order a port) := by
  rw [fromBracketed_eq (a.not_mem_toString hinet), parsePort_toDecimal,
    a.fromString_toString hinet]
  rfl

theorem fromString_toString (addr : Address) (port : UInt16) :
    fromString inet order ((make order addr port).toString inet) =
      .ok (make order addr port) := by
  rw [EndpointStorage.toString, address_make, port_make]
  cases addr with
  | v4 a =>
      obtain ⟨text, hstring, htext, _⟩ := a.toString_cases hinet
      have hbracket : '[' ∉ a.toString inet := by
        rw [hstring]
        exact (hinet.plain4 _ _ htext).2.2.1
      have hplain : fromPlain inet order _ = _ := fromPlain_append hinet a port
      rw [make, family_initV4, if_neg (by decide)]
      simp only [Address.toString]
      cases hs : a.toString inet ++ ':' :: toDecimal port.toNat with
      | nil => simp at hs
      | cons front rest =>
          have hfront : front ≠ '[' := by
            rintro rfl
            have hmem : '[' ∈ a.toString inet ++ ':' :: toDecimal port.toNat := by
              rw [hs]
              exact List.mem_cons_self
            rw [List.mem_append, List.mem_cons] at hmem
            rcases hmem with hmem | heq | hmem
            · exact hbracket hmem
            · nomatch heq
            · exact not_mem_toDecimal rfl hmem
          rw [fromString, if_neg hfront, ← hs, hplain]
  | v6 a =>
      rw [make, family_initV6, if_pos rfl]
      simp only [Address.toString]
      rw [List.cons_append, fromString, if_pos rfl]
      exact fromBracketed_append hinet a port

end EndpointStorage

end Text

namespace EndpointStorage

/-- The address with the port, the text and the native bytes stand for the same
endpoint. -/
theorem representations_agree (inet : Inet) (hinet : inet.Documented)
    (order : ByteOrder) :
    (∀ addr port,
      (make order addr port).address = addr ∧ (make order addr port).port = port ∧
      (fromString inet order ((make order addr port).toString inet) =
        .ok (make order addr port)) ∧
      (make order addr port).equals (make order addr port) = true ∧
      ∀ buf, (make order addr port).size ≤ buf.length →
        ∃ written,
          (make order addr port).toNative (some buf) =
            .ok ((make order addr port).size, written) ∧
          written.drop (make order addr port).size =
            buf.drop (make order addr port).size ∧
          ∀ len, (make order addr port).size ≤ len → len ≤ sockaddrStorageSize →
            fromNative order (some (written.take len)) = .ok (make order addr port)) ∧
    ∀ bytes e, fromNative order (some bytes) = .ok e →
      (∀ buf, e.size ≤ buf.length →
        e.toNative (some buf) = .ok (e.size, bytes.take e.size ++ buf.drop e.size)) ∧
      (make order e.address e.port).equals e = true := by
  refine ⟨fun addr port => ⟨address_make addr port, port_make addr port,
    fromString_toString hinet addr port, equals_iff.mpr ⟨rfl, rfl, rfl⟩,
    fun buf hbuf => ?_⟩, fun bytes e haccepted => ⟨fun buf hbuf => ?_, make_equals e⟩⟩
  · obtain ⟨native, hknown, hlength, hmake⟩ := make_eq_ofStructure order addr port
    rw [hmake] at hbuf ⊢
    refine ⟨native ++ buf.drop native.length, toNative_ofStructure hbuf,
      List.drop_left' rfl, fun len hlen hfits => ?_⟩
    have hkeep : (native ++ buf.drop native.length).take len =
        native ++ (buf.drop native.length).take (len - native.length) := by
      rw [List.take_append, List.take_of_length_le hlen]
    rw [hkeep]
    refine fromNative_append (le_trans ?_ hfits)
    have hlen' : native.length ≤ len := hlen
    simp only [List.length_append, List.length_take]
    omega
  · obtain ⟨native, more, hknown, hlength, rfl, rfl⟩ := fromNative_cases haccepted
    rw [toNative_ofStructure hbuf, size_ofStructure, List.take_left' rfl]

end EndpointStorage

/-! ### An `inet_ntop` for the witness -/

/-- Decimal numbers with dots in between, as for the four bytes of IPv4. -/
def dotted : List UInt8 → List Char
  | [] => []
  | [b] => toDecimal b.toNat
  | b :: rest => toDecimal b.toNat ++ '.' :: dotted rest

def parseDotted : (count : Nat) → List Char → Option (List UInt8)
  | 0, _ => none
  | 1, s =>
      match fromChars s with
      | some (value, []) => if value > 255 then none else some [UInt8.ofNat value]
      | _ => none
  | count + 2, s =>
      match fromChars s with
      | some (value, '.' :: rest) =>
          if value > 255 then none
          else (parseDotted (count + 1) rest).map (UInt8.ofNat value :: ·)
      | _ => none

theorem parseDotted_dotted :
    ∀ bytes : List UInt8, bytes ≠ [] →
      parseDotted bytes.length (dotted bytes) = some bytes
  | [], hne => absurd rfl hne
  | [b], _ => by
      have hlt : b.toNat < 256 := b.toNat_lt
      have hread := fromChars_toDecimal b.toNat [] (by omega) nofun
      rw [List.append_nil] at hread
      simp only [List.length_singleton, parseDotted, dotted, hread]
      rw [if_neg (by omega), UInt8.ofNat_toNat]
  | b :: c :: rest, _ => by
      have hlt : b.toNat < 256 := b.toNat_lt
      have hread := fromChars_toDecimal b.toNat ('.' :: dotted (c :: rest)) (by omega)
        (by rintro _ ⟨⟩; rfl)
      have hrest := parseDotted_dotted (c :: rest) (by simp)
      simp only [List.length_cons] at hrest
      simp only [List.length_cons, parseDotted, dotted, hread]
      rw [if_neg (by omega), hrest, UInt8.ofNat_toNat]
      rfl

theorem mem_dotted {c : Char} :
    ∀ bytes : List UInt8, c ∈ dotted bytes → c.isDigit = true ∨ c = '.'
  | [], hmem => nomatch hmem
  | [b], hmem => .inl (isDigit_of_mem_toDecimal hmem)
  | b :: b' :: rest, hmem => by
      rw [dotted, List.mem_append, List.mem_cons] at hmem
      rcases hmem with hdigit | hdot | hrest
      · exact .inl (isDigit_of_mem_toDecimal hdigit)
      · exact .inr hdot
      · exact mem_dotted (b' :: rest) hrest
      all_goals simp

theorem not_mem_dotted {bytes : List UInt8} {c : Char} (hdigit : c.isDigit = false)
    (hdot : c ≠ '.') : c ∉ dotted bytes := fun hmem => by
  rcases mem_dotted bytes hmem with hc | hc
  · rw [hdigit] at hc
    nomatch hc
  · exact hdot hc

def dottedString {n : Nat} (b : Bytes n) : CString :=
  ⟨dotted b.toList, not_mem_dotted (by decide) (by decide)⟩

def ofDotted (n : Nat) (text : CString) : Option (Bytes n) :=
  match parseDotted n text.val with
  | none => none
  | some bytes => if hlength : bytes.length = n then some ⟨bytes, hlength⟩ else none

theorem ofDotted_dottedString {n : Nat} (b : Bytes n) (hn : n ≠ 0) :
    ofDotted n (dottedString b) = some b := by
  have hlength := b.toList_length
  have hparse := parseDotted_dotted b.toList fun hnil => hn (by
    rw [hnil] at hlength
    exact hlength.symm)
  rw [hlength] at hparse
  rw [ofDotted, dottedString]
  simp only [hparse, dif_pos hlength]
  rfl

def loopback6 : Bytes 16 := ⟨List.replicate 15 0 ++ [1], rfl⟩

def loopbackText : CString := ⟨[':', ':', '1'], by decide⟩

/-- IPv4 as it is written, and of IPv6 the loopback address; other IPv6 addresses are
written in a form of their own. -/
def numeric : Inet where
  ntop4 := fun b => some (dottedString b)
  pton4 := ofDotted 4
  ntop6 := fun b => some (if b = loopback6 then loopbackText else dottedString b)
  pton6 := fun text => if text = loopbackText then some loopback6 else ofDotted 16 text

theorem dottedString_ne {n : Nat} (b : Bytes n) : dottedString b ≠ loopbackText := by
  intro heq
  have hmem : ':' ∈ dotted b.toList := by
    change ':' ∈ (dottedString b).val
    rw [heq]
    decide
  exact not_mem_dotted (by decide) (by decide) hmem

theorem numeric_documented : numeric.Documented where
  roundTrip4 := fun b => ofDotted_dottedString b (by decide)
  roundTrip6 := by
    intro b
    simp only [numeric, Option.bind_some]
    by_cases hb : b = loopback6
    · rw [if_pos hb, if_pos rfl, hb]
    · rw [if_neg hb, if_neg (dottedString_ne b), ofDotted_dottedString b (by decide)]
  plain4 := by
    rintro b _ ⟨⟩
    refine ⟨?_, ?_, ?_, ?_⟩
    all_goals exact not_mem_dotted (by decide) (by decide)
  plain6 := by
    rintro b _ ⟨⟩
    by_cases hb : b = loopback6
    · rw [if_pos hb]
      decide
    · rw [if_neg hb]
      refine ⟨?_, ?_, ?_⟩
      all_goals exact not_mem_dotted (by decide) (by decide)

namespace EndpointStorage

theorem representations_agree_loopback :
    (∃ e, fromString numeric .little
        ['1', '2', '7', '.', '0', '.', '0', '.', '1', ':', '8', '0', '8', '0'] = .ok e ∧
      e.port = 8080) ∧
    ∃ e, fromString numeric .big
        ['[', ':', ':', '1', '%', '5', ']', ':', '9', '0', '9', '0'] = .ok e ∧
      e.address = .v6 ⟨loopback6, 5⟩ := by
  have hv4 := (representations_agree numeric numeric_documented .little).1
    (.v4 ⟨⟨[127, 0, 0, 1], rfl⟩⟩) 8080
  have hv6 := (representations_agree numeric numeric_documented .big).1
    (.v6 ⟨loopback6, 5⟩) 9090
  exact ⟨⟨_, hv4.2.2.1, hv4.2.1⟩, ⟨_, hv6.2.2.1, hv6.1⟩⟩

end EndpointStorage

end IpEndpoint

end Iocoro
