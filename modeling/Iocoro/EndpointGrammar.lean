/-
What `endpoint_storage::from_string` accepts, as a grammar of whole texts.  The parser
hands its address part to `inet_pton` as a C string, so a text with a NUL in that part
is read as if the part ended there; with those texts apart it accepts exactly the
grammar.
-/
import Iocoro.IpEndpoint

namespace Iocoro

namespace IpEndpoint

/-- A decimal number of at least one digit. -/
structure Numeral (text : List Char) (value : Nat) : Prop where
  nonempty : text ≠ []
  digits : ∀ c ∈ text, c.isDigit = true
  value_eq : Nat.ofDigitChars 10 text 0 = value

/-- The texts that stand for an address with a port, over those that stand for a bare
address: `b:p`, `[a]:p` and `[a%z]:p`. -/
inductive Reads (reads4 : List Char → Bytes 4 → Prop)
    (reads6 : List Char → Bytes 16 → Prop) : List Char → Address → UInt16 → Prop
  | plain {b p : List Char} {bytes : Bytes 4} {port : UInt16}
      (haddress : reads4 b bytes) (hport : Numeral p port.toNat) :
      Reads reads4 reads6 (b ++ ':' :: p) (.v4 { bytes }) port
  | bracketed {a p : List Char} {bytes : Bytes 16} {port : UInt16}
      (haddress : reads6 a bytes) (hport : Numeral p port.toNat) :
      Reads reads4 reads6 ('[' :: a ++ ']' :: ':' :: p) (.v6 { bytes }) port
  | withScope {a z p : List Char} {bytes : Bytes 16} {scopeId : UInt32} {port : UInt16}
      (haddress : reads6 a bytes) (hscope : Numeral z scopeId.toNat)
      (hport : Numeral p port.toNat) :
      Reads reads4 reads6 ('[' :: (a ++ '%' :: z) ++ ']' :: ':' :: p)
        (.v6 { bytes, scopeId }) port

/-- `inet_pton` accepts the text as a whole. -/
def Whole {n : Nat} (pton : CString → Option (Bytes n)) (text : List Char)
    (bytes : Bytes n) : Prop :=
  ∃ hplain : nul ∉ text, pton ⟨text, hplain⟩ = some bytes

/-- The grammar of `from_string`. -/
def Grammar (inet : Inet) : List Char → Address → UInt16 → Prop :=
  Reads (Whole inet.pton4) (Whole inet.pton6)

/-- `from_string` accepts the texts of the grammar, and no others, for what they stand
for. -/
def AcceptsExactly (inet : Inet) (order : ByteOrder) (s : List Char) : Prop :=
  ∀ addr port, (∃ e, EndpointStorage.fromString inet order s = .ok e ∧
    e.address = addr ∧ e.port = port) ↔ Grammar inet s addr port

/-- What the parser asks of the part before the last colon. -/
def Cut4 (inet : Inet) (b : List Char) (bytes : Bytes 4) : Prop :=
  b.head? ≠ some '[' ∧ ':' ∉ b ∧ inet.pton4 (cStr b) = some bytes

/-- What the parser asks of the part in brackets before a scope. -/
def Cut6 (inet : Inet) (a : List Char) (bytes : Bytes 16) : Prop :=
  ']' ∉ a ∧ '%' ∉ a ∧ inet.pton6 (cStr a) = some bytes

/-- A NUL in an address part, with an address before it. -/
def Hidden (inet : Inet) : List Char → Address → UInt16 → Prop :=
  Reads (fun b bytes => nul ∈ b ∧ Cut4 inet b bytes)
    (fun a bytes => nul ∈ a ∧ Cut6 inet a bytes)

/-- The textual formats: dotted decimal for IPv4, and for IPv6 hexadecimal digits,
colons and dots. -/
structure Inet.Textual (inet : Inet) : Prop where
  text4 : ∀ text bytes, inet.pton4 text = some bytes →
    ∀ c ∈ text.val, c.isDigit = true ∨ c = '.'
  text6 : ∀ text bytes, inet.pton6 text = some bytes →
    ∀ c ∈ text.val, c.isDigit = true ∨ c ∈ "abcdefABCDEF".toList ∨ c = '.' ∨ c = ':'

/-! ### Parts of the parser -/

theorem cStr_of_plain {text : List Char} (hplain : nul ∉ text) :
    cStr text = ⟨text, hplain⟩ :=
  cStr_val ⟨text, hplain⟩

theorem fromChars_eq_some {text : List Char} {value : Nat} :
    fromChars text = some (value, []) ↔ Numeral text value ∧ value < 2 ^ 32 := by
  constructor
  · intro hread
    simp only [fromChars] at hread
    split at hread
    · cases hread
    · next hsome =>
        split at hread
        · next hvalue =>
            obtain ⟨rfl, hrest⟩ := Prod.mk.inj (Option.some.inj hread)
            have hdigits := List.dropWhile_eq_nil_iff.mp hrest
            rw [List.takeWhile_eq_self_iff.mpr hdigits] at hsome hvalue ⊢
            exact ⟨⟨fun hnil => hsome (by rw [hnil]; rfl), hdigits, rfl⟩, hvalue⟩
        · cases hread
  · rintro ⟨⟨hsome, hdigits, rfl⟩, hvalue⟩
    simp only [fromChars]
    rw [List.takeWhile_eq_self_iff.mpr hdigits, List.dropWhile_eq_nil_iff.mpr hdigits,
      if_neg (by simpa using hsome), if_pos hvalue]

theorem parsePort_eq_ok {p : List Char} {port : UInt16} :
    parsePort p = .ok port ↔ Numeral p port.toNat := by
  have hport : port.toNat < 65536 := port.toNat_lt
  rw [parsePort]
  constructor
  · intro hparsed
    split at hparsed
    · cases hparsed
    · split at hparsed
      · next value hread =>
          split at hparsed
          · cases hparsed
          · next hsmall =>
              obtain rfl := Except.ok.inj hparsed
              rw [UInt16.toNat_ofNat_of_lt' (by change value < 65536; omega)]
              exact (fromChars_eq_some.mp hread).1
      · cases hparsed
  · intro hnumeral
    have hread := fromChars_eq_some.mpr ⟨hnumeral, by omega⟩
    rw [if_neg (by simpa using hnumeral.nonempty), hread]
    simp only
    rw [if_neg (by omega), UInt16.ofNat_toNat]

theorem ofParts_eq_ok {inet : Inet} {ipPart : List Char} {scopeId : UInt32}
    {addr : AddressV6} :
    AddressV6.ofParts inet ipPart scopeId = .ok addr ↔
      ∃ bytes, inet.pton6 (cStr ipPart) = some bytes ∧ addr = { bytes, scopeId } := by
  rw [AddressV6.ofParts]
  cases inet.pton6 (cStr ipPart) with
  | none =>
      constructor
      · intro hparsed
        cases hparsed
      · rintro ⟨bytes, hbytes, -⟩
        cases hbytes
  | some bytes =>
      refine ⟨fun h => ⟨bytes, rfl, (Except.ok.inj h).symm⟩, ?_⟩
      rintro ⟨bytes', hbytes, rfl⟩
      rw [Option.some.inj hbytes]

theorem AddressV4.fromString_eq_ok {inet : Inet} {s : List Char} {addr : AddressV4} :
    AddressV4.fromString inet s = .ok addr ↔
      ∃ bytes, inet.pton4 (cStr s) = some bytes ∧ addr = { bytes } := by
  rw [AddressV4.fromString]
  cases inet.pton4 (cStr s) with
  | none =>
      constructor
      · intro hparsed
        cases hparsed
      · rintro ⟨bytes, hbytes, -⟩
        cases hbytes
  | some bytes =>
      refine ⟨fun h => ⟨bytes, rfl, (Except.ok.inj h).symm⟩, ?_⟩
      rintro ⟨bytes', hbytes, rfl⟩
      rw [Option.some.inj hbytes]

theorem AddressV6.fromString_plain (inet : Inet) {a : List Char} (ha : '%' ∉ a) :
    AddressV6.fromString inet a = AddressV6.ofParts inet a 0 := by
  rw [AddressV6.fromString, find_eq_none ha]

theorem AddressV6.fromString_scoped {inet : Inet} {a z : List Char} (ha : '%' ∉ a)
    {addr : AddressV6} :
    AddressV6.fromString inet (a ++ '%' :: z) = .ok addr ↔
      ∃ scopeId : UInt32, Numeral z scopeId.toNat ∧
        AddressV6.ofParts inet a scopeId = .ok addr := by
  rw [AddressV6.fromString, find_append a z ha]
  simp only [drop_append_cons, List.take_left' rfl]
  constructor
  · intro hparsed
    split at hparsed
    · cases hparsed
    · split at hparsed
      · next scope hread =>
          obtain ⟨hnumeral, hsmall⟩ := fromChars_eq_some.mp hread
          refine ⟨UInt32.ofNat scope, ?_, hparsed⟩
          rwa [UInt32.toNat_ofNat_of_lt' hsmall]
      · cases hparsed
  · rintro ⟨scopeId, hnumeral, hparts⟩
    have hread := fromChars_eq_some.mpr ⟨hnumeral, scopeId.toNat_lt⟩
    rw [if_neg (by simpa using hnumeral.nonempty), hread]
    simp only
    rwa [UInt32.ofNat_toNat]

theorem not_mem_of_numeral {text : List Char} {value : Nat} (htext : Numeral text value)
    {c : Char} (hc : c.isDigit = false) : c ∉ text := fun hmem => by
  cases (htext.digits c hmem).symm.trans hc

namespace EndpointStorage

variable {inet : Inet} {order : ByteOrder}

/-- An address and a port that the two parts of a text are parsed to. -/
theorem parsed_eq_ok {A : Type} {port : Except Error UInt16} {addr : Except Error A}
    {init : A → UInt16 → EndpointStorage order} {e : EndpointStorage order} :
    (do
      let port ← port
      let addr ← addr
      return init addr port) = Except.ok e ↔
    ∃ p a, port = .ok p ∧ addr = .ok a ∧ e = init a p := by
  cases port with
  | error => exact ⟨nofun, nofun⟩
  | ok p =>
      cases addr with
      | error => exact ⟨nofun, nofun⟩
      | ok a =>
          refine ⟨fun h => ⟨p, a, rfl, rfl, (Except.ok.inj h).symm⟩, ?_⟩
          rintro ⟨p', a', hp, ha, rfl⟩
          cases hp
          cases ha
          rfl

theorem find_isSome {s : List Char} {c : Char} (hc : c ∈ s) : (find s c).isSome := by
  obtain ⟨before, after, rfl, hbefore⟩ := List.eq_append_cons_of_mem hc
  rw [find_append before after hbefore]
  rfl

theorem rfind_eq_none {s : List Char} {c : Char} (hc : c ∉ s) : rfind s c = none := by
  have hnone := find_eq_none (mt List.mem_reverse.mp hc)
  rw [find] at hnone
  rw [rfind, hnone]
  rfl

/-- A text accepted without brackets has one colon. -/
theorem fromPlain_cases {s : List Char} {e : EndpointStorage order}
    (haccepted : fromPlain inet order s = .ok e) :
    ∃ b p, s = b ++ ':' :: p ∧ ':' ∉ b ∧ ':' ∉ p := by
  by_cases hcolon : ':' ∈ s
  · obtain ⟨after, before, hreverse, hafter⟩ :=
      List.eq_append_cons_of_mem (List.mem_reverse.mpr hcolon)
    have hs : s = before.reverse ++ ':' :: after.reverse := by
      rw [← List.reverse_reverse s, hreverse]
      simp
    have hp : ':' ∉ after.reverse := mt List.mem_reverse.mp hafter
    refine ⟨before.reverse, after.reverse, hs, fun hb => ?_, hp⟩
    rw [hs, fromPlain, rfind_append _ _ hp] at haccepted
    simp only [List.take_left' rfl, find_isSome hb, if_true] at haccepted
    cases haccepted
  · rw [fromPlain, rfind_eq_none hcolon] at haccepted
    cases haccepted

/-- A text accepted in brackets has a colon after the first that closes. -/
theorem fromBracketed_cases {rest : List Char} {e : EndpointStorage order}
    (haccepted : fromBracketed inet order ('[' :: rest) = .ok e) :
    ∃ h p, '[' :: rest = '[' :: h ++ ']' :: ':' :: p ∧ ']' ∉ h := by
  by_cases hclose : ']' ∈ rest
  · obtain ⟨h, after, rfl, hh⟩ := List.eq_append_cons_of_mem hclose
    have hbefore : ']' ∉ '[' :: h := by
      rw [List.mem_cons]
      rintro (heq | hmem)
      · cases heq
      · exact hh hmem
    rw [← List.cons_append, fromBracketed, find_append _ _ hbefore] at haccepted
    simp only at haccepted
    split at haccepted
    · cases haccepted
    · next hshape =>
        have hcolon : ('[' :: h ++ ']' :: after)[('[' :: h).length + 1]? = some ':' :=
          not_not.mp fun hmissing => hshape (.inr hmissing)
        rw [← List.head?_drop, drop_append_cons] at hcolon
        obtain ⟨p, rfl⟩ := List.head?_eq_some_iff.mp hcolon
        exact ⟨h, p, rfl, hh⟩
  · have hnone : ']' ∉ '[' :: rest := by
      rw [List.mem_cons]
      rintro (heq | hmem)
      · cases heq
      · exact hclose hmem
    rw [fromBracketed, find_eq_none hnone] at haccepted
    cases haccepted

/-- The texts that `from_string` accepts. -/
theorem fromString_eq_ok {s : List Char} {e : EndpointStorage order} :
    fromString inet order s = .ok e ↔
      ∃ addr port, Reads (Cut4 inet) (Cut6 inet) s addr port ∧
        e = make order addr port := by
  constructor
  · intro haccepted
    cases s with
    | nil => cases haccepted
    | cons front rest =>
        rw [fromString] at haccepted
        split at haccepted
        · next hfront =>
            subst hfront
            obtain ⟨h, p, hs, hh⟩ := fromBracketed_cases haccepted
            rw [hs, fromBracketed_eq hh, parsed_eq_ok] at haccepted
            obtain ⟨port, addr, hport, haddr, rfl⟩ := haccepted
            rw [parsePort_eq_ok] at hport
            rw [hs]
            by_cases hpercent : '%' ∈ h
            · obtain ⟨a, z, rfl, ha⟩ := List.eq_append_cons_of_mem hpercent
              obtain ⟨scopeId, hscope, hparts⟩ :=
                (AddressV6.fromString_scoped ha).mp haddr
              obtain ⟨bytes, hbytes, rfl⟩ := ofParts_eq_ok.mp hparts
              have hclose : ']' ∉ a := fun hmem => hh (List.mem_append_left _ hmem)
              exact ⟨_, port, .withScope ⟨hclose, ha, hbytes⟩ hscope hport, rfl⟩
            · rw [AddressV6.fromString_plain inet hpercent, ofParts_eq_ok] at haddr
              obtain ⟨bytes, hbytes, rfl⟩ := haddr
              exact ⟨_, port, .bracketed ⟨hh, hpercent, hbytes⟩ hport, rfl⟩
        · next hfront =>
            obtain ⟨b, p, hs, hb, hp⟩ := fromPlain_cases haccepted
            rw [hs, fromPlain_eq hb hp, parsed_eq_ok] at haccepted
            obtain ⟨port, addr, hport, haddr, rfl⟩ := haccepted
            obtain ⟨bytes, hbytes, rfl⟩ := AddressV4.fromString_eq_ok.mp haddr
            rw [hs]
            refine ⟨_, port, .plain ⟨fun hhead => hfront ?_, hb, hbytes⟩
              (parsePort_eq_ok.mp hport), rfl⟩
            obtain ⟨b', rfl⟩ := List.head?_eq_some_iff.mp hhead
            exact (List.cons.inj hs).1
  · rintro ⟨addr, port, hreads, rfl⟩
    cases hreads with
    | @plain b p bytes _ haddress hport =>
        obtain ⟨hhead, hb, hbytes⟩ := haddress
        have hparsed : fromPlain inet order (b ++ ':' :: p) =
            .ok (initV4 order { bytes } port) := by
          rw [fromPlain_eq hb (not_mem_of_numeral hport rfl), parsed_eq_ok]
          exact ⟨port, _, parsePort_eq_ok.mpr hport,
            AddressV4.fromString_eq_ok.mpr ⟨bytes, hbytes, rfl⟩, rfl⟩
        cases b with
        | nil => exact hparsed
        | cons front b =>
            rw [List.cons_append, fromString,
              if_neg fun hfront => hhead (by rw [hfront]; rfl)]
            exact hparsed
    | @bracketed a p bytes _ haddress hport =>
        obtain ⟨hclose, hpercent, hbytes⟩ := haddress
        rw [List.cons_append, fromString, if_pos rfl, ← List.cons_append,
          fromBracketed_eq hclose, parsed_eq_ok]
        exact ⟨port, _, parsePort_eq_ok.mpr hport,
          (AddressV6.fromString_plain inet hpercent).trans
            (ofParts_eq_ok.mpr ⟨bytes, hbytes, rfl⟩), rfl⟩
    | @withScope a z p bytes scopeId _ haddress hscope hport =>
        obtain ⟨hclose, hpercent, hbytes⟩ := haddress
        have hh : ']' ∉ a ++ '%' :: z := by
          rw [List.mem_append, List.mem_cons]
          rintro (hmem | heq | hmem)
          · exact hclose hmem
          · cases heq
          · exact not_mem_of_numeral hscope rfl hmem
        rw [List.cons_append, fromString, if_pos rfl, ← List.cons_append,
          fromBracketed_eq hh, parsed_eq_ok]
        exact ⟨port, _, parsePort_eq_ok.mpr hport,
          (AddressV6.fromString_scoped hpercent).mpr
            ⟨scopeId, hscope, ofParts_eq_ok.mpr ⟨bytes, hbytes, rfl⟩⟩, rfl⟩

end EndpointStorage

/-! ### The grammar -/

/-- The part of a text that is handed to `inet_pton`. -/
def addressPart : List Char → List Char
  | [] => []
  | front :: rest =>
      if front = '[' then (rest.takeWhile (· != ']')).takeWhile (· != '%')
      else (front :: rest).takeWhile (· != ':')

theorem takeWhile_append_cons {before : List Char} (after : List Char) {c : Char}
    (hc : c ∉ before) : (before ++ c :: after).takeWhile (· != c) = before := by
  rw [List.takeWhile_append_of_pos, List.takeWhile_cons_of_neg, List.append_nil]
  · simp
  · intro d hd
    rw [bne_iff_ne]
    rintro rfl
    exact hc hd

theorem takeWhile_of_not_mem {s : List Char} {c : Char} (hc : c ∉ s) :
    s.takeWhile (· != c) = s := by
  refine List.takeWhile_eq_self_iff.mpr fun d hd => ?_
  rw [bne_iff_ne]
  rintro rfl
  exact hc hd

theorem addressPart_plain {b : List Char} (p : List Char) (hhead : b.head? ≠ some '[')
    (hb : ':' ∉ b) : addressPart (b ++ ':' :: p) = b := by
  have htake := takeWhile_append_cons p hb
  cases b with
  | nil => exact htake
  | cons front b =>
      rw [List.cons_append, addressPart,
        if_neg fun hfront => hhead (by rw [hfront]; rfl)]
      exact htake

theorem addressPart_bracketed {h : List Char} (p : List Char) (hh : ']' ∉ h) :
    addressPart ('[' :: h ++ ']' :: ':' :: p) = h.takeWhile (· != '%') := by
  rw [List.cons_append, addressPart, if_pos rfl, takeWhile_append_cons _ hh]

/-- A text has one address part, whatever is asked of it besides the characters at which
the parser stops. -/
theorem Reads.addressPart {reads4 : List Char → Bytes 4 → Prop}
    {reads6 : List Char → Bytes 16 → Prop} {s : List Char} {addr : Address}
    {port : UInt16} (hreads : Reads reads4 reads6 s addr port)
    (hstops4 : ∀ b bytes, reads4 b bytes → b.head? ≠ some '[' ∧ ':' ∉ b)
    (hstops6 : ∀ a bytes, reads6 a bytes → ']' ∉ a ∧ '%' ∉ a) :
    (∃ bytes, reads4 (addressPart s) bytes) ∨
      ∃ bytes, reads6 (addressPart s) bytes := by
  cases hreads with
  | @plain b p bytes _ haddress hport =>
      obtain ⟨hhead, hb⟩ := hstops4 _ _ haddress
      rw [addressPart_plain p hhead hb]
      exact .inl ⟨bytes, haddress⟩
  | @bracketed a p bytes _ haddress hport =>
      obtain ⟨hclose, hpercent⟩ := hstops6 _ _ haddress
      rw [addressPart_bracketed p hclose, takeWhile_of_not_mem hpercent]
      exact .inr ⟨bytes, haddress⟩
  | @withScope a z p bytes _ _ haddress hscope hport =>
      obtain ⟨hclose, hpercent⟩ := hstops6 _ _ haddress
      have hh : ']' ∉ a ++ '%' :: z := by
        rw [List.mem_append, List.mem_cons]
        rintro (hmem | heq | hmem)
        · exact hclose hmem
        · nomatch heq
        · exact not_mem_of_numeral hscope rfl hmem
      rw [addressPart_bracketed p hh, takeWhile_append_cons z hpercent]
      exact .inr ⟨bytes, haddress⟩

theorem Reads.mono {reads4 reads4' : List Char → Bytes 4 → Prop}
    {reads6 reads6' : List Char → Bytes 16 → Prop} {s : List Char} {addr : Address}
    {port : UInt16} (hreads : Reads reads4 reads6 s addr port)
    (h4 : ∀ b bytes, reads4 b bytes → reads4' b bytes)
    (h6 : ∀ a bytes, reads6 a bytes → reads6' a bytes) :
    Reads reads4' reads6' s addr port := by
  cases hreads with
  | plain haddress hport => exact .plain (h4 _ _ haddress) hport
  | bracketed haddress hport => exact .bracketed (h6 _ _ haddress) hport
  | withScope haddress hscope hport => exact .withScope (h6 _ _ haddress) hscope hport

section Textual

variable {inet : Inet} (hinet : inet.Textual)

include hinet

/-- A whole address holds none of the characters at which the parser stops. -/
theorem Whole.cut4 {b : List Char} {bytes : Bytes 4}
    (hwhole : Whole inet.pton4 b bytes) : Cut4 inet b bytes := by
  obtain ⟨hplain, haccepted⟩ := hwhole
  have htext : ∀ c, c.isDigit = false → c ≠ '.' → c ∉ b := fun c hdigit hdot hmem =>
    (hinet.text4 _ _ haccepted c hmem).elim (fun h => by cases h.symm.trans hdigit) hdot
  refine ⟨fun hhead => ?_, htext ':' rfl nofun, by rwa [cStr_of_plain hplain]⟩
  exact htext '[' rfl nofun (List.mem_of_head? hhead)

theorem Whole.cut6 {a : List Char} {bytes : Bytes 16}
    (hwhole : Whole inet.pton6 a bytes) : Cut6 inet a bytes := by
  obtain ⟨hplain, haccepted⟩ := hwhole
  have htext : ∀ c, c.isDigit = false → c ∉ "abcdefABCDEF".toList → c ≠ '.' → c ≠ ':' →
      c ∉ a := by
    intro c hdigit hletter hdot hcolon hmem
    obtain h | h | h | h := hinet.text6 _ _ haccepted c hmem
    · cases h.symm.trans hdigit
    · exact hletter h
    · exact hdot h
    · exact hcolon h
  exact ⟨htext ']' rfl (by decide) nofun nofun, htext '%' rfl (by decide) nofun nofun,
    by rwa [cStr_of_plain hplain]⟩

/-- A text with a NUL in its address part is not in the grammar. -/
theorem not_hidden_of_grammar {s : List Char} {addr addr' : Address}
    {port port' : UInt16} (hgrammar : Grammar inet s addr port) : ¬ Hidden inet s addr' port' := by
  intro hhidden
  have hplain : nul ∉ addressPart s := by
    obtain ⟨_, hpart, _⟩ | ⟨_, hpart, _⟩ := hgrammar.addressPart
      (fun b bytes hb => ⟨(hb.cut4 hinet).1, (hb.cut4 hinet).2.1⟩)
      (fun a bytes ha => ⟨(ha.cut6 hinet).1, (ha.cut6 hinet).2.1⟩)
    · exact hpart
    · exact hpart
  obtain ⟨_, hpart, _⟩ | ⟨_, hpart, _⟩ := hhidden.addressPart
    (fun b bytes hb => ⟨hb.2.1, hb.2.2.1⟩) (fun a bytes ha => ⟨ha.2.1, ha.2.2.1⟩)
  · exact hplain hpart
  · exact hplain hpart

omit hinet in
/-- What the parser accepts is in the grammar unless its address part hides a NUL. -/
theorem grammar_or_hidden {s : List Char} {addr : Address} {port : UInt16}
    (hreads : Reads (Cut4 inet) (Cut6 inet) s addr port) :
    Grammar inet s addr port ∨ Hidden inet s addr port := by
  have hwhole : ∀ {n : Nat} {pton : CString → Option (Bytes n)} {text : List Char}
      {bytes : Bytes n}, nul ∉ text → pton (cStr text) = some bytes →
      Whole pton text bytes := fun hplain haccepted =>
    ⟨hplain, by rwa [cStr_of_plain hplain] at haccepted⟩
  cases hreads with
  | @plain b p bytes _ haddress hport =>
      by_cases hnul : nul ∈ b
      · exact .inr (.plain ⟨hnul, haddress⟩ hport)
      · exact .inl (.plain (hwhole hnul haddress.2.2) hport)
  | @bracketed a p bytes _ haddress hport =>
      by_cases hnul : nul ∈ a
      · exact .inr (.bracketed ⟨hnul, haddress⟩ hport)
      · exact .inl (.bracketed (hwhole hnul haddress.2.2) hport)
  | @withScope a z p bytes _ _ haddress hscope hport =>
      by_cases hnul : nul ∈ a
      · exact .inr (.withScope ⟨hnul, haddress⟩ hscope hport)
      · exact .inl (.withScope (hwhole hnul haddress.2.2) hscope hport)

end Textual

namespace EndpointStorage

/-- `from_string` accepts exactly its grammar on the texts whose address part does not
hide a NUL behind an address, and on no others. -/
theorem fromString_exact_iff (inet : Inet) (hinet : inet.Textual) (order : ByteOrder)
    (s : List Char) :
    AcceptsExactly inet order s ↔ ∀ addr port, ¬ Hidden inet s addr port := by
  constructor
  · intro hexact addr port hhidden
    have haccepted : fromString inet order s = .ok (make order addr port) :=
      fromString_eq_ok.mpr ⟨addr, port,
        hhidden.mono (fun _ _ => And.right) (fun _ _ => And.right), rfl⟩
    have hgrammar := (hexact addr port).mp
      ⟨make order addr port, haccepted, address_make addr port, port_make addr port⟩
    exact not_hidden_of_grammar hinet hgrammar hhidden
  · intro hplain addr port
    constructor
    · rintro ⟨e, haccepted, haddress, hport⟩
      obtain ⟨addr', port', hreads, rfl⟩ := fromString_eq_ok.mp haccepted
      rw [address_make] at haddress
      rw [port_make] at hport
      rw [← haddress, ← hport]
      exact (grammar_or_hidden hreads).resolve_right (hplain _ _)
    · intro hgrammar
      refine ⟨make order addr port, fromString_eq_ok.mpr ⟨addr, port, ?_, rfl⟩,
        address_make addr port, port_make addr port⟩
      exact hgrammar.mono (fun _ _ h => h.cut4 hinet) (fun _ _ h => h.cut6 hinet)

end EndpointStorage

/-! ### Instances -/

theorem fromChars_append {s rest : List Char} {value : Nat}
    (hread : fromChars s = some (value, rest)) :
    ∃ digits, s = digits ++ rest ∧ ∀ c ∈ digits, c.isDigit = true := by
  simp only [fromChars] at hread
  split at hread
  · cases hread
  · split at hread
    · obtain ⟨-, rfl⟩ := Prod.mk.inj (Option.some.inj hread)
      exact ⟨s.takeWhile Char.isDigit, (List.takeWhile_append_dropWhile ..).symm,
        fun c hc => List.mem_takeWhile_imp hc⟩
    · cases hread

theorem mem_of_parseDotted {c : Char} {count : Nat} {s : List Char} {bytes : List UInt8}
    (hparsed : parseDotted count s = some bytes) (hmem : c ∈ s) :
    c.isDigit = true ∨ c = '.' := by
  fun_induction parseDotted count s generalizing bytes with
  | case1 s => cases hparsed
  | case2 s value hread | case3 s value hread =>
      obtain ⟨digits, rfl, hdigits⟩ := fromChars_append hread
      rw [List.append_nil] at hmem
      exact .inl (hdigits c hmem)
  | case4 => cases hparsed
  | case5 => cases hparsed
  | case6 count s value rest hread hsmall ih =>
      obtain ⟨digits, rfl, hdigits⟩ := fromChars_append hread
      obtain ⟨bytes', hrest, -⟩ := Option.map_eq_some_iff.mp hparsed
      rw [List.mem_append, List.mem_cons] at hmem
      obtain hdigit | hdot | htail := hmem
      · exact .inl (hdigits c hdigit)
      · exact .inr hdot
      · exact ih hrest htail
  | case7 => cases hparsed

theorem mem_of_ofDotted {n : Nat} {text : CString} {bytes : Bytes n}
    (haccepted : ofDotted n text = some bytes) {c : Char} (hmem : c ∈ text.val) :
    c.isDigit = true ∨ c = '.' := by
  rw [ofDotted] at haccepted
  split at haccepted
  · cases haccepted
  · next hparsed => exact mem_of_parseDotted hparsed hmem

theorem textual_numeric : numeric.Textual where
  text4 := fun _ _ haccepted _ hmem => mem_of_ofDotted haccepted hmem
  text6 := by
    intro text bytes haccepted c hmem
    change (if text = loopbackText then some loopback6 else ofDotted 16 text) = _
      at haccepted
    split at haccepted
    · next heq =>
        rw [heq] at hmem
        obtain rfl | rfl | rfl : c = ':' ∨ c = ':' ∨ c = '1' := by
          simpa [loopbackText] using hmem
        · exact .inr (.inr (.inr rfl))
        · exact .inr (.inr (.inr rfl))
        · exact .inl rfl
    · exact (mem_of_ofDotted haccepted hmem).imp id fun hdot => .inr (.inl hdot)

namespace EndpointStorage

theorem fromString_exact_scoped :
    ∃ e, fromString numeric .little "[::1%2]:80".toList = .ok e ∧
      e.address = .v6 { bytes := loopback6, scopeId := 2 } ∧ e.port = 80 := by
  have hexact := (fromString_exact_iff numeric textual_numeric .little
    "[::1%2]:80".toList).mpr fun addr port hhidden => by
      obtain ⟨_, hnul, _⟩ | ⟨_, hnul, _⟩ := hhidden.addressPart
        (fun b bytes hb => ⟨hb.2.1, hb.2.2.1⟩) (fun a bytes ha => ⟨ha.2.1, ha.2.2.1⟩)
      · exact absurd hnul (by decide)
      · exact absurd hnul (by decide)
  have hwhole : Whole numeric.pton6 "::1".toList loopback6 := ⟨by decide, by decide⟩
  have hscope : Numeral "2".toList (2 : UInt32).toNat :=
    ⟨by decide, List.all_eq_true.mp (by decide), by decide⟩
  have hport : Numeral "80".toList (80 : UInt16).toNat :=
    ⟨by decide, List.all_eq_true.mp (by decide), by decide⟩
  exact (hexact _ _).mpr (.withScope hwhole hscope hport)

/-- The host of a text that names `127.0.0.1` before a NUL and more after it. -/
def hiddenHost : List Char :=
  "127.0.0.1".toList ++ [nul, 'x']

theorem not_exact_hiddenHost :
    ¬ ∀ (inet : Inet) (order : ByteOrder) (s : List Char), inet.Textual →
      AcceptsExactly inet order s := by
  intro hall
  have hhost : nul ∈ hiddenHost ∧ Cut4 numeric hiddenHost ⟨[127, 0, 0, 1], rfl⟩ :=
    ⟨by decide, by decide, by decide, by decide⟩
  have hport : Numeral "80".toList (80 : UInt16).toNat :=
    ⟨by decide, List.all_eq_true.mp (by decide), by decide⟩
  have hhidden : Hidden numeric (hiddenHost ++ ':' :: "80".toList)
      (.v4 { bytes := ⟨[127, 0, 0, 1], rfl⟩ }) 80 := .plain hhost hport
  have haccepted : fromString numeric .little (hiddenHost ++ ':' :: "80".toList) =
      .ok (make .little (.v4 { bytes := ⟨[127, 0, 0, 1], rfl⟩ }) 80) :=
    fromString_eq_ok.mpr ⟨_, 80, .plain hhost.2 hport, rfl⟩
  have hgrammar := (hall numeric .little _ textual_numeric _ _).mp
    ⟨_, haccepted, address_make _ _, port_make _ _⟩
  exact not_hidden_of_grammar textual_numeric hgrammar hhidden

end EndpointStorage

end IpEndpoint

end Iocoro
