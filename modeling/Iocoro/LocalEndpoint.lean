/-
`local::endpoint`: what its functions build, the way through the native structure and
back, and the names that the kernel reads from the endpoints.  A path with a NUL inside
is accepted and names something else.
-/
import Iocoro.DatagramSource

namespace Iocoro

namespace LocalEndpoint

open IpEndpoint (Error familyOf member)

theorem native_fits (order : ByteOrder) {sunPath : List UInt8}
    (hfits : sunPath.length ≤ sunPathSize) :
    (order.store 2 afUnix.toNat ++ sunPath).length ≤ sockaddrUnSize := by
  rw [List.length_append, ByteOrder.length_store]
  exact Nat.add_le_add_left hfits 2

theorem size_within {sunPath : List UInt8} (hfits : sunPath.length ≤ sunPathSize) :
    sunPathOffset ≤ sunPathOffset + sunPath.length ∧
      sunPathOffset + sunPath.length ≤ sockaddrUnSize :=
  ⟨Nat.le_add_right .., Nat.add_le_add_left hfits 2⟩

/-- The endpoint with these bytes of `sun_path`, the rest of which is zero. -/
def ofSunPath (order : ByteOrder) (sunPath : List UInt8)
    (hfits : sunPath.length ≤ sunPathSize) : Endpoint where
  addr := sockaddrUn (order.store 2 afUnix.toNat ++ sunPath) (native_fits order hfits)
  size := sunPathOffset + sunPath.length
  within := size_within hfits

theorem terminated_fits {path : List UInt8} (hfits : ¬ path.length + 1 > sunPathSize) :
    (path ++ [0]).length ≤ sunPathSize := by
  rw [List.length_append]
  exact not_lt.mp hfits

/-- `from_path`; the terminator is part of the address. -/
def fromPath (order : ByteOrder) (path : List UInt8) : Except Error Endpoint :=
  if path = [] then .error .invalidArgument
  else if hfits : path.length + 1 > sunPathSize then .error .invalidArgument
  else .ok (ofSunPath order (path ++ [0]) (terminated_fits hfits))

theorem abstract_fits {name : List UInt8} (hfits : ¬ name.length > sunPathSize - 1) :
    (0 :: name).length ≤ sunPathSize :=
  Nat.succ_le_succ (not_lt.mp hfits)

/-- `from_abstract`; a NUL stands in front of the name, and none behind it. -/
def fromAbstract (order : ByteOrder) (name : List UInt8) : Except Error Endpoint :=
  if name = [] then .error .invalidArgument
  else if hfits : name.length > sunPathSize - 1 then .error .invalidArgument
  else .ok (ofSunPath order (0 :: name) (abstract_fits hfits))

/-- `to_native` into a buffer; nothing is a null pointer.  It returns the number of
bytes and the buffer. -/
def Endpoint.toNative (e : Endpoint) (addr : Option (List UInt8)) :
    Except Error (Nat × List UInt8) :=
  match addr with
  | none => .error .invalidArgument
  | some buf =>
      if buf.length = 0 then .error .invalidArgument
      else if e.size < sunPathOffset + 1 then .error .invalidEndpoint
      else if buf.length < e.size then .error .invalidEndpoint
      else .ok (e.size, e.native ++ buf.drop e.size)

/-- The endpoints that a program can have. -/
inductive Built (order : ByteOrder) : Endpoint → Prop
  | unset : Built order (.unset order)
  | path {path : List UInt8} {e : Endpoint} (haccepted : fromPath order path = .ok e) :
      Built order e
  | abstractName {name : List UInt8} {e : Endpoint}
      (haccepted : fromAbstract order name = .ok e) : Built order e
  | native {memory : List UInt8} {len : Nat} {e : Endpoint} (hlen : len ≤ memory.length)
      (haccepted : fromNative order (some memory) len = .ok e) : Built order e

/-! ### Names -/

/-- How the kernel tells sockets of this family apart. -/
inductive Name where
  | pathname (path : List UInt8)
  | abstractName (name : List UInt8)
deriving DecidableEq, Repr

/-- The kernel's reading of `sun_path`: a pathname ends at the first NUL, and behind a
leading NUL every byte counts. -/
def nameOf : List UInt8 → Option Name
  | [] => none
  | first :: rest =>
      if first = 0 then
        if rest = [] then none else some (.abstractName rest)
      else some (.pathname ((first :: rest).takeWhile (· != 0)))

def Endpoint.name (e : Endpoint) : Option Name :=
  nameOf (e.native.drop sunPathOffset)

theorem nameOf_eq_none {sunPath : List UInt8} :
    nameOf sunPath = none ↔ sunPath = [] ∨ sunPath = [0] := by
  cases sunPath with
  | nil => simp [nameOf]
  | cons first rest =>
      by_cases hfirst : first = 0
      · by_cases hrest : rest = []
        · simp [nameOf, hfirst, hrest]
        · simp [nameOf, hfirst, hrest]
      · simp [nameOf, hfirst]

/-- A pathname is not empty and has no NUL. -/
theorem nameOf_pathname {sunPath path : List UInt8}
    (hname : nameOf sunPath = some (.pathname path)) :
    path ≠ [] ∧ 0 ∉ path := by
  cases sunPath with
  | nil => cases hname
  | cons first rest =>
      by_cases hfirst : first = 0
      · simp only [nameOf, if_pos hfirst] at hname
        split at hname
        · cases hname
        · cases hname
      · simp only [nameOf, if_neg hfirst] at hname
        obtain rfl : (first :: rest).takeWhile (· != 0) = path :=
          Name.pathname.inj (Option.some.inj hname)
        refine ⟨?_, fun hzero => ?_⟩
        · rw [List.takeWhile_cons_of_pos (by simpa using hfirst)]
          exact List.cons_ne_nil _ _
        · have hne := List.mem_takeWhile_imp hzero
          exact absurd hne (by decide)

theorem nameOf_abstractName {sunPath name : List UInt8}
    (hname : nameOf sunPath = some (.abstractName name)) :
    sunPath = 0 :: name ∧ name ≠ [] := by
  cases sunPath with
  | nil => cases hname
  | cons first rest =>
      by_cases hfirst : first = 0
      · simp only [nameOf, if_pos hfirst] at hname
        split at hname
        · cases hname
        · next hrest =>
            obtain rfl : rest = name := Name.abstractName.inj (Option.some.inj hname)
            exact ⟨by rw [hfirst], hrest⟩
      · simp only [nameOf, if_neg hfirst] at hname
        cases hname

/-- Up to its terminator a path without NUL is read as it is. -/
theorem nameOf_terminated {path : List UInt8} (hne : path ≠ []) :
    nameOf (path ++ [0]) = some (.pathname path) ↔ 0 ∉ path := by
  constructor
  · exact fun hname => (nameOf_pathname hname).2
  · intro hplain
    have hall : ∀ b ∈ path, (b != 0) = true := by
      intro b hb
      rw [bne_iff_ne]
      exact fun hzero => hplain (hzero ▸ hb)
    have htaken : (path ++ [0]).takeWhile (· != 0) = path := by
      rw [List.takeWhile_append_of_pos hall]
      simp
    cases path with
    | nil => exact absurd rfl hne
    | cons first rest =>
        have hfirst : first ≠ 0 := fun hzero => hplain (by rw [hzero]; exact List.mem_cons_self)
        rw [List.cons_append] at htaken ⊢
        rw [nameOf, if_neg hfirst, htaken]

example : nameOf ([47, 97, 0, 98] ++ [0]) = some (.pathname [47, 97]) := by decide

/-! ### The native structure -/

theorem sockaddrUn_congr {a b : List UInt8} (hsame : a = b) (ha : a.length ≤ sockaddrUnSize)
    (hb : b.length ≤ sockaddrUnSize) : sockaddrUn a ha = sockaddrUn b hb := by
  subst hsame
  rfl

theorem Endpoint.eq_of {e e' : Endpoint} (haddr : e.addr = e'.addr) (hsize : e.size = e'.size) :
    e = e' := by
  cases e
  cases e'
  cases haddr
  cases hsize
  rfl

theorem length_family (order : ByteOrder) :
    (order.store 2 afUnix.toNat).length = sunPathOffset :=
  order.length_store 2 _

theorem native_ofSunPath (order : ByteOrder) {sunPath : List UInt8}
    (hfits : sunPath.length ≤ sunPathSize) :
    (ofSunPath order sunPath hfits).native = order.store 2 afUnix.toNat ++ sunPath :=
  native_sockaddrUn (native_fits order hfits) (by rw [List.length_append, length_family]; rfl)

theorem name_ofSunPath (order : ByteOrder) {sunPath : List UInt8}
    (hfits : sunPath.length ≤ sunPathSize) :
    (ofSunPath order sunPath hfits).name = nameOf sunPath := by
  rw [Endpoint.name, native_ofSunPath, List.drop_left' (length_family order)]

theorem ofSunPath_nil (order : ByteOrder) :
    ofSunPath order [] (Nat.zero_le _) = .unset order :=
  Endpoint.eq_of
    (sockaddrUn_congr (List.append_nil _) (native_fits order (Nat.zero_le _)) (by
      rw [length_family]
      decide)) rfl

/-- The two bytes in front of `sun_path` are the family's. -/
theorem take_of_family {order : ByteOrder} {memory : List UInt8} {len : Nat}
    (hlen : len ≤ memory.length) (hpath : sunPathOffset < len)
    (hfamily : familyOf order memory = afUnix) :
    memory.take len = order.store 2 afUnix.toNat ++ (memory.take len).drop 2 := by
  have htwo : 2 < len := hpath
  have hlength : (memory.take 2).length = 2 := by
    rw [List.length_take]
    omega
  have hlt := order.load_lt (memory.take 2)
  rw [hlength] at hlt
  have hload : order.load (memory.take 2) = afUnix.toNat := by
    rw [← hfamily, familyOf, member, List.drop_zero, UInt16.toNat_ofNat_of_lt' hlt]
  have hstore := order.store_load (memory.take 2)
  rw [hload, hlength] at hstore
  have hfront : (memory.take len).take 2 = memory.take 2 := by
    rw [List.take_take, Nat.min_eq_left (le_of_lt htwo)]
  rw [hstore, ← hfront, List.take_append_drop]

/-- What `from_native` has accepted is in the endpoint as it was. -/
theorem fromNative_eq {order : ByteOrder} {memory : List UInt8} {len : Nat} {e : Endpoint}
    (haccepted : fromNative order (some memory) len = .ok e) :
    e.size = len ∧ ∃ hfits, e.addr = sockaddrUn (memory.take len) hfits := by
  simp only [fromNative] at haccepted
  split at haccepted
  · cases haccepted
  · split at haccepted
    · cases haccepted
    · split at haccepted
      · cases haccepted
      · split at haccepted
        · cases haccepted
        · next hmax =>
            split at haccepted
            · cases haccepted
            · cases haccepted
              exact ⟨rfl, le_trans (List.length_take_le ..) (not_lt.mp hmax), rfl⟩

theorem fromNative_cases {order : ByteOrder} {memory : List UInt8} {len : Nat} {e : Endpoint}
    (hlen : len ≤ memory.length) (haccepted : fromNative order (some memory) len = .ok e) :
    ∃ sunPath hfits, memory.take len = order.store 2 afUnix.toNat ++ sunPath ∧
      nameOf sunPath ≠ none ∧ e = ofSunPath order sunPath hfits := by
  obtain ⟨hsize, hfits, haddr⟩ := fromNative_eq haccepted
  have htake : (memory.take len).length = len := by
    rw [List.length_take, Nat.min_eq_left hlen]
  have hnative : e.native = memory.take len := by
    rw [Endpoint.native, haddr, hsize]
    exact native_sockaddrUn hfits htake
  have hnamed := (fromNative_iff hlen).mp ⟨e, haccepted, hnative⟩
  obtain ⟨hpath, hmax⟩ := hnamed.within
  have hfront := take_of_family hlen hpath hnamed.family
  have hpath' : 2 < len := hpath
  have hmax' : len ≤ 110 := hmax
  have hlength : ((memory.take len).drop 2).length = len - 2 := by
    rw [List.length_drop, htake]
  have hshort : ((memory.take len).drop 2).length ≤ sunPathSize := by
    rw [hlength]
    change len - 2 ≤ 108
    omega
  refine ⟨(memory.take len).drop 2, hshort, hfront, fun hnone => ?_, ?_⟩
  · rcases nameOf_eq_none.mp hnone with hempty | hzero
    · rw [hempty, List.length_nil] at hlength
      omega
    · rw [hzero, List.length_singleton] at hlength
      refine hnamed.nonempty ?_ (by change len = 3; omega)
      rw [← List.getElem?_take_of_lt hpath, hfront, hzero,
        List.getElem?_append_right (le_of_eq (length_family order)), length_family]
      rfl
  · refine Endpoint.eq_of
      (haddr.trans (sockaddrUn_congr hfront hfits (native_fits order hshort))) ?_
    rw [hsize]
    change len = 2 + _
    rw [hlength]
    omega

theorem named_sunPath (order : ByteOrder) {sunPath : List UInt8} (rest : List UInt8)
    (hfits : sunPath.length ≤ sunPathSize) (hname : nameOf sunPath ≠ none) :
    Named order (order.store 2 afUnix.toNat ++ sunPath ++ rest)
      (sunPathOffset + sunPath.length) := by
  refine ⟨?_, ⟨?_, (size_within hfits).2⟩, fun hzero hone => ?_⟩
  · rw [List.append_assoc]
    exact IpEndpoint.familyOf_store order afUnix _
  · have hpos : sunPath.length ≠ 0 := fun hlength =>
      hname (nameOf_eq_none.mpr (.inl (List.length_eq_zero_iff.mp hlength)))
    omega
  · obtain ⟨b, rfl⟩ := List.length_eq_one_iff.mp (Nat.add_left_cancel hone)
    rw [List.append_assoc,
      List.getElem?_append_right (le_of_eq (length_family order)), length_family] at hzero
    obtain rfl : b = 0 := Option.some.inj hzero
    exact hname (nameOf_eq_none.mpr (.inr rfl))

/-- An address with a name, read from the front of a buffer. -/
theorem fromNative_sunPath (order : ByteOrder) {sunPath : List UInt8} (rest : List UInt8)
    (hfits : sunPath.length ≤ sunPathSize) (hname : nameOf sunPath ≠ none) :
    fromNative order (some (order.store 2 afUnix.toNat ++ sunPath ++ rest))
      (sunPathOffset + sunPath.length) = .ok (ofSunPath order sunPath hfits) := by
  have hlength : (order.store 2 afUnix.toNat ++ sunPath).length =
      sunPathOffset + sunPath.length := by
    rw [List.length_append, length_family]
  have hlen : sunPathOffset + sunPath.length ≤
      (order.store 2 afUnix.toNat ++ sunPath ++ rest).length := by
    rw [List.length_append, hlength]
    exact Nat.le_add_right ..
  obtain ⟨e, haccepted, -⟩ := (fromNative_iff hlen).mpr (named_sunPath order rest hfits hname)
  obtain ⟨other, hother, hfront, -, rfl⟩ := fromNative_cases hlen haccepted
  rw [List.take_left' hlength] at hfront
  obtain rfl := List.append_cancel_left hfront
  exact haccepted

/-! ### The constructors -/

theorem fromPath_ok {order : ByteOrder} {path : List UInt8} {e : Endpoint}
    (haccepted : fromPath order path = .ok e) :
    path ≠ [] ∧ path.length < sunPathSize ∧
      ∃ hfits, e = ofSunPath order (path ++ [0]) hfits := by
  simp only [fromPath] at haccepted
  split at haccepted
  · cases haccepted
  · next hne =>
      split at haccepted
      · cases haccepted
      · next hfits =>
          cases haccepted
          exact ⟨hne, not_lt.mp hfits, terminated_fits hfits, rfl⟩

theorem fromPath_of (order : ByteOrder) {path : List UInt8} (hne : path ≠ [])
    (hfits : path.length < sunPathSize) :
    ∃ hfits, fromPath order path = .ok (ofSunPath order (path ++ [0]) hfits) := by
  have hroom : ¬ path.length + 1 > sunPathSize := not_lt.mpr hfits
  exact ⟨terminated_fits hroom, by rw [fromPath, if_neg hne, dif_neg hroom]⟩

theorem fromAbstract_ok {order : ByteOrder} {name : List UInt8} {e : Endpoint}
    (haccepted : fromAbstract order name = .ok e) :
    name ≠ [] ∧ name.length < sunPathSize ∧
      ∃ hfits, e = ofSunPath order (0 :: name) hfits := by
  simp only [fromAbstract] at haccepted
  split at haccepted
  · cases haccepted
  · next hne =>
      split at haccepted
      · cases haccepted
      · next hfits =>
          cases haccepted
          exact ⟨hne, Nat.lt_succ_of_le (not_lt.mp hfits), abstract_fits hfits, rfl⟩

theorem fromAbstract_of (order : ByteOrder) {name : List UInt8} (hne : name ≠ [])
    (hfits : name.length < sunPathSize) :
    ∃ hfits, fromAbstract order name = .ok (ofSunPath order (0 :: name) hfits) := by
  have hroom : ¬ name.length > sunPathSize - 1 := not_lt.mpr (Nat.le_of_lt_succ hfits)
  exact ⟨abstract_fits hroom, by rw [fromAbstract, if_neg hne, dif_neg hroom]⟩

theorem nameOf_cons_zero {name : List UInt8} (hne : name ≠ []) :
    nameOf (0 :: name) = some (.abstractName name) := by
  rw [nameOf, if_pos rfl, if_neg hne]

/-- With a leading NUL `from_path` makes an abstract name, of which the terminator is a
part; both functions have the same limit there. -/
theorem fromPath_cons_zero (order : ByteOrder) (rest : List UInt8) :
    fromPath order (0 :: rest) = fromAbstract order (rest ++ [0]) := by
  have hne : rest ++ [0] ≠ [] := List.append_ne_nil_of_right_ne_nil _ (List.cons_ne_nil _ _)
  have hlength : (rest ++ [0]).length = (0 :: rest).length := by
    rw [List.length_append]
    rfl
  by_cases hshort : (0 :: rest).length < sunPathSize
  · obtain ⟨hfits, hpath⟩ := fromPath_of order (List.cons_ne_nil 0 rest) hshort
    obtain ⟨hfits', hname⟩ := fromAbstract_of order hne (hlength ▸ hshort)
    rw [hpath, hname]
    rfl
  · rw [fromPath, fromAbstract, if_neg (List.cons_ne_nil _ _), if_neg hne, dif_pos,
      dif_pos]
    · rw [hlength]
      exact Nat.lt_of_lt_of_le (by decide) (not_lt.mp hshort)
    · exact Nat.lt_succ_of_le (not_lt.mp hshort)

/-- Only the default constructor gives an endpoint without a name. -/
theorem Built.sunPath {order : ByteOrder} {e : Endpoint} (he : Built order e) :
    ∃ sunPath hfits, e = ofSunPath order sunPath hfits ∧
      (sunPath = [] ∨ nameOf sunPath ≠ none) := by
  cases he with
  | unset => exact ⟨[], Nat.zero_le _, (ofSunPath_nil order).symm, .inl rfl⟩
  | @path path _ haccepted =>
      obtain ⟨hne, -, hfits, rfl⟩ := fromPath_ok haccepted
      refine ⟨_, hfits, rfl, .inr fun hnone => ?_⟩
      rcases nameOf_eq_none.mp hnone with hempty | hzero
      · exact hne (List.append_eq_nil_iff.mp hempty).1
      · exact hne (List.append_cancel_right (hzero.trans (List.nil_append _).symm))
  | abstractName haccepted =>
      obtain ⟨hne, -, hfits, rfl⟩ := fromAbstract_ok haccepted
      refine ⟨_, hfits, rfl, .inr ?_⟩
      rw [nameOf_cons_zero hne]
      exact Option.some_ne_none _
  | native hlen haccepted =>
      obtain ⟨sunPath, hfits, -, hname, rfl⟩ := fromNative_cases hlen haccepted
      exact ⟨sunPath, hfits, rfl, .inr hname⟩

theorem toNative_ok_iff {e : Endpoint} {buf : List UInt8} {out : Nat × List UInt8} :
    e.toNative (some buf) = .ok out ↔
      sunPathOffset < e.size ∧ e.size ≤ buf.length ∧
        out = (e.size, e.native ++ buf.drop e.size) := by
  constructor
  · intro hwritten
    simp only [Endpoint.toNative] at hwritten
    split at hwritten
    · cases hwritten
    · split at hwritten
      · cases hwritten
      · next hpath =>
          split at hwritten
          · cases hwritten
          · next hroom =>
              cases hwritten
              exact ⟨not_lt.mp hpath, not_lt.mp hroom, rfl⟩
  · rintro ⟨hpath, hroom, rfl⟩
    have hsize : 2 < e.size := hpath
    have hshort : ¬ e.size < sunPathOffset + 1 := not_lt.mpr hpath
    simp only [Endpoint.toNative]
    rw [if_neg (by omega), if_neg hshort, if_neg (not_lt.mpr hroom)]

/-! ### Results -/

/-- An endpoint is written as it is and read back as it was, into and from any buffer that
has room for it; one without a name is not written at all. -/
structure Travels (order : ByteOrder) (e : Endpoint) : Prop where
  family : familyOf order e.native = afUnix
  nameless : e.name = none ↔ e = .unset order
  writes : ∀ buf, (∃ out, e.toNative (some buf) = .ok out) ↔
    e.name ≠ none ∧ e.size ≤ buf.length
  back : ∀ buf size written, e.toNative (some buf) = .ok (size, written) →
    written.length = buf.length ∧ written.drop size = buf.drop size ∧
      fromNative order (some written) size = .ok e

theorem endpoints_travel {order : ByteOrder} {e : Endpoint} (he : Built order e) :
    Travels order e := by
  obtain ⟨sunPath, hfits, rfl, hshape⟩ := he.sunPath
  have hname : (ofSunPath order sunPath hfits).name = nameOf sunPath :=
    name_ofSunPath order hfits
  have hnative := native_ofSunPath order hfits
  have hlength : (ofSunPath order sunPath hfits).native.length =
      sunPathOffset + sunPath.length := by
    rw [hnative, List.length_append, length_family]
  have hnamed : nameOf sunPath ≠ none ↔ sunPathOffset < sunPathOffset + sunPath.length := by
    constructor
    · intro hsome
      refine Nat.lt_add_of_pos_right (List.length_pos_iff.mpr ?_)
      rintro rfl
      exact hsome rfl
    · intro hlong
      refine hshape.resolve_left ?_
      rintro rfl
      exact absurd hlong (lt_irrefl _)
  refine ⟨?_, ?_, fun buf => ?_, fun buf size written hwritten => ?_⟩
  · rw [hnative]
    exact IpEndpoint.familyOf_store order afUnix _
  · constructor
    · intro hnone
      rw [hname] at hnone
      obtain rfl := hshape.resolve_right (not_not.mpr hnone)
      exact ofSunPath_nil order
    · intro hunset
      rw [hunset, ← ofSunPath_nil, name_ofSunPath]
      rfl
  · rw [hname, hnamed]
    constructor
    · rintro ⟨out, hwritten⟩
      obtain ⟨hpath, hroom, -⟩ := toNative_ok_iff.mp hwritten
      exact ⟨hpath, hroom⟩
    · rintro ⟨hpath, hroom⟩
      exact ⟨_, toNative_ok_iff.mpr ⟨hpath, hroom, rfl⟩⟩
  · obtain ⟨hpath, hroom, hout⟩ := toNative_ok_iff.mp hwritten
    obtain ⟨rfl, rfl⟩ := Prod.mk.inj hout
    refine ⟨?_, List.drop_left' hlength, ?_⟩
    · rw [List.length_append, List.length_drop, hlength]
      exact Nat.add_sub_of_le hroom
    · rw [hnative]
      exact fromNative_sunPath order _ hfits (hnamed.mpr hpath)

theorem endpoints_travel_root :
    ∃ e, fromPath .little [47] = .ok e ∧ Travels .little e := by
  obtain ⟨hfits, haccepted⟩ := fromPath_of .little (List.cons_ne_nil 47 []) (by decide)
  exact ⟨_, haccepted, endpoints_travel (.path haccepted)⟩

/-- What the constructors name.  A path is named only when it has no NUL; every endpoint
with an abstract name is the one that `from_abstract` makes, and with a pathname that
leaves room for its terminator `from_path` makes one of the same name. -/
structure NamesExactly (order : ByteOrder) : Prop where
  paths : ∀ path, (∃ e, fromPath order path = .ok e) ↔
    path ≠ [] ∧ path.length < sunPathSize
  path : ∀ path e, fromPath order path = .ok e →
    (e.name = some (.pathname path) ↔ 0 ∉ path)
  leadingNul : ∀ rest, fromPath order (0 :: rest) = fromAbstract order (rest ++ [0])
  abstractNames : ∀ name, (∃ e, fromAbstract order name = .ok e) ↔
    name ≠ [] ∧ name.length < sunPathSize
  abstractName : ∀ name e, fromAbstract order name = .ok e →
    e.name = some (.abstractName name)
  isPath : ∀ e path, Built order e → e.name = some (.pathname path) →
    path.length < sunPathSize → ∃ e', fromPath order path = .ok e' ∧ e'.name = e.name
  isAbstract : ∀ e name, Built order e → e.name = some (.abstractName name) →
    fromAbstract order name = .ok e

theorem endpoints_name (order : ByteOrder) : NamesExactly order := by
  refine ⟨fun path => ?_, fun path e haccepted => ?_, fromPath_cons_zero order, fun name => ?_,
    fun name e haccepted => ?_, fun e path he hname hshort => ?_, fun e name he hname => ?_⟩
  · constructor
    · rintro ⟨e, haccepted⟩
      obtain ⟨hne, hshort, -⟩ := fromPath_ok haccepted
      exact ⟨hne, hshort⟩
    · rintro ⟨hne, hshort⟩
      obtain ⟨hfits, haccepted⟩ := fromPath_of order hne hshort
      exact ⟨_, haccepted⟩
  · obtain ⟨hne, -, hfits, rfl⟩ := fromPath_ok haccepted
    rw [name_ofSunPath]
    exact nameOf_terminated hne
  · constructor
    · rintro ⟨e, haccepted⟩
      obtain ⟨hne, hshort, -⟩ := fromAbstract_ok haccepted
      exact ⟨hne, hshort⟩
    · rintro ⟨hne, hshort⟩
      obtain ⟨hfits, haccepted⟩ := fromAbstract_of order hne hshort
      exact ⟨_, haccepted⟩
  · obtain ⟨hne, -, hfits, rfl⟩ := fromAbstract_ok haccepted
    rw [name_ofSunPath, nameOf_cons_zero hne]
  · obtain ⟨sunPath, hfits, rfl, -⟩ := he.sunPath
    rw [name_ofSunPath] at hname
    obtain ⟨hne, hplain⟩ := nameOf_pathname hname
    obtain ⟨hfits', haccepted⟩ := fromPath_of order hne hshort
    refine ⟨_, haccepted, ?_⟩
    rw [name_ofSunPath, name_ofSunPath, hname]
    exact (nameOf_terminated hne).mpr hplain
  · obtain ⟨sunPath, hfits, rfl, -⟩ := he.sunPath
    rw [name_ofSunPath] at hname
    obtain ⟨rfl, hne⟩ := nameOf_abstractName hname
    obtain ⟨hfits', haccepted⟩ := fromAbstract_of order hne (Nat.lt_of_succ_le hfits)
    exact haccepted

end LocalEndpoint

end Iocoro
