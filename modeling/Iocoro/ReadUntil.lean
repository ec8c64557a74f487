/-
`async_read_until`: after each read only the end of the buffer is searched again.  The
call is compared with a search of everything received so far, started anew each time.
-/
import Iocoro.ListSearch

universe u

namespace Iocoro

namespace ReadUntil

open ListSearch (FirstAt OccursAt search)

variable {Ec : Type u}

/-- What `async_read_some` may do with a span of this many bytes. -/
inductive Read (Ec : Type u) (offered : Nat) : Type u
  | error (ec : Ec)
  | endOfStream
  | bytes (chunk : List UInt8) (hchunk : chunk ≠ []) (hfits : chunk.length ≤ offered)

/-- The results of `async_read_some`, by the number of the read. -/
abbrev Stream (Ec : Type u) : Type u :=
  (count offered : Nat) → Read Ec offered

inductive Error (Ec : Type u) : Type u
  | invalidArgument
  | eof
  | messageSize
  | stream (ec : Ec)
  deriving DecidableEq, Repr

/-- The result of a call with the sizes of the spans it offered to the stream. -/
structure Outcome (Ec : Type u) : Type u where
  result : Except (Error Ec) Nat
  reads : List Nat

def findByteInSpan (data : List UInt8) (needle : UInt8) : Option Nat :=
  if data.isEmpty then none
  else data.findIdx? (· == needle)

def findInSpan (data delim : List UInt8) : Option Nat :=
  if delim.isEmpty || data.length < delim.length then none
  else if hone : delim.length = 1 then findByteInSpan data delim[0]
  else search delim data

/-- The buffer after a chunk has been copied to the start of `buf.subspan(offset)`. -/
def copyTo (buf chunk : List UInt8) (offset : Nat) : List UInt8 :=
  buf.take offset ++ chunk ++ buf.drop (offset + chunk.length)

/-- Where the next search starts. -/
def overlapStart (delim : List UInt8) (currentSize : Nat) : Nat :=
  if currentSize > delim.length - 1 then currentSize - (delim.length - 1) else 0

namespace Span

/-- The loop of the span overload; it ends with its outcome and the buffer. -/
def loop (stream : Stream Ec) (delim : List UInt8) :
    (fuel : Nat) → (buf : List UInt8) → (currentSize searchFrom : Nat) →
      (reads : List Nat) → Option (Outcome Ec × List UInt8)
  | 0, _, _, _, _ => none
  | fuel + 1, buf, currentSize, searchFrom, reads =>
      if currentSize < buf.length then
        let remaining := buf.length - currentSize
        let reads' := reads ++ [remaining]
        match stream reads.length remaining with
        | .error ec => some (⟨.error (.stream ec), reads'⟩, buf)
        | .endOfStream => some (⟨.error .eof, reads'⟩, buf)
        | .bytes chunk _ _ =>
            let buf' := copyTo buf chunk currentSize
            let currentSize' := currentSize + chunk.length
            match findInSpan ((buf'.take currentSize').drop searchFrom) delim with
            | some pos => some (⟨.ok (searchFrom + pos + delim.length), reads'⟩, buf')
            | none =>
                loop stream delim fuel buf' currentSize'
                  (overlapStart delim currentSize') reads'
      else some (⟨.error .messageSize, reads⟩, buf)

end Span

/-- `async_read_until` with a span or a `string_view` for the delimiter. -/
def asyncReadUntil (stream : Stream Ec) (buf delim : List UInt8) (initialSize : Nat) :
    Option (Outcome Ec × List UInt8) :=
  if delim.isEmpty then some (⟨.error .invalidArgument, []⟩, buf)
  else if initialSize > buf.length then some (⟨.error .invalidArgument, []⟩, buf)
  else
    match
      (if initialSize ≥ delim.length then findInSpan (buf.take initialSize) delim
        else none) with
    | some pos => some (⟨.ok (pos + delim.length), []⟩, buf)
    | none =>
        Span.loop stream delim (buf.length + 1) buf initialSize
          (overlapStart delim initialSize) []

namespace Char

/-- The loop of the overload for one character. -/
def loop (stream : Stream Ec) (delim : UInt8) :
    (fuel : Nat) → (buf : List UInt8) → (currentSize searchFrom : Nat) →
      (reads : List Nat) → Option (Outcome Ec × List UInt8)
  | 0, _, _, _, _ => none
  | fuel + 1, buf, currentSize, searchFrom, reads =>
      if currentSize < buf.length then
        let offered := (buf.drop currentSize).length
        let reads' := reads ++ [offered]
        match stream reads.length offered with
        | .error ec => some (⟨.error (.stream ec), reads'⟩, buf)
        | .endOfStream => some (⟨.error .eof, reads'⟩, buf)
        | .bytes chunk _ _ =>
            let buf' := copyTo buf chunk currentSize
            let currentSize' := currentSize + chunk.length
            match findByteInSpan ((buf'.take currentSize').drop searchFrom) delim with
            | some pos => some (⟨.ok (searchFrom + pos + 1), reads'⟩, buf')
            | none => loop stream delim fuel buf' currentSize' currentSize' reads'
      else some (⟨.error .messageSize, reads⟩, buf)

end Char

/-- `async_read_until` with a character for the delimiter. -/
def asyncReadUntilChar (stream : Stream Ec) (buf : List UInt8) (delim : UInt8)
    (initialSize : Nat) : Option (Outcome Ec × List UInt8) :=
  if initialSize > buf.length then some (⟨.error .invalidArgument, []⟩, buf)
  else
    match
      (if initialSize > 0 then findByteInSpan (buf.take initialSize) delim
        else none) with
    | some pos => some (⟨.ok (pos + 1), []⟩, buf)
    | none => Char.loop stream delim (buf.length + 1) buf initialSize initialSize []

/-- What the call is for: all of the data is searched, from its beginning, before
any read and after each one. -/
inductive NaiveRun (stream : Stream Ec) (delim : List UInt8) (size : Nat) :
    List UInt8 → List Nat → Outcome Ec → List UInt8 → Prop
  | found {data : List UInt8} {reads : List Nat} {k : Nat}
      (hfirst : FirstAt delim data k) :
      NaiveRun stream delim size data reads ⟨.ok (k + delim.length), reads⟩ data
  | full {data : List UInt8} {reads : List Nat}
      (hnone : ∀ k, ¬ OccursAt delim data k) (hfull : data.length = size) :
      NaiveRun stream delim size data reads ⟨.error .messageSize, reads⟩ data
  | failed {data : List UInt8} {reads : List Nat} {ec : Ec}
      (hnone : ∀ k, ¬ OccursAt delim data k) (hspace : data.length < size)
      (hread : stream reads.length (size - data.length) = .error ec) :
      NaiveRun stream delim size data reads
        ⟨.error (.stream ec), reads ++ [size - data.length]⟩ data
  | ended {data : List UInt8} {reads : List Nat}
      (hnone : ∀ k, ¬ OccursAt delim data k) (hspace : data.length < size)
      (hread : stream reads.length (size - data.length) = .endOfStream) :
      NaiveRun stream delim size data reads
        ⟨.error .eof, reads ++ [size - data.length]⟩ data
  | more {data : List UInt8} {reads : List Nat} {chunk : List UInt8}
      {hchunk : chunk ≠ []} {hfits : chunk.length ≤ size - data.length}
      {outcome : Outcome Ec} {final : List UInt8}
      (hnone : ∀ k, ¬ OccursAt delim data k) (hspace : data.length < size)
      (hread : stream reads.length (size - data.length) = .bytes chunk hchunk hfits)
      (hrest : NaiveRun stream delim size (data ++ chunk)
        (reads ++ [size - data.length]) outcome final) :
      NaiveRun stream delim size data reads outcome final

variable {stream : Stream Ec} {delim : List UInt8}

theorem findByteInSpan_eq_search (data : List UInt8) (needle : UInt8) :
    findByteInSpan data needle = search [needle] data := by
  induction data with
  | nil => rfl
  | cons head rest ih =>
      have hrest : rest.findIdx? (· == needle) = search [needle] rest := by
        rw [← ih, findByteInSpan]
        cases rest <;> rfl
      rw [findByteInSpan, search, List.findIdx?_cons, hrest]
      by_cases hhead : head = needle
      · simp [hhead]
      · simp [hhead, Ne.symm hhead]

theorem findInSpan_singleton (data : List UInt8) (needle : UInt8) :
    findInSpan data [needle] = findByteInSpan data needle := by
  cases data <;> rfl

theorem findInSpan_eq_search (hdelim : delim ≠ []) (data : List UInt8) :
    findInSpan data delim = search delim data := by
  by_cases hshort : data.length < delim.length
  · have hnone : search delim data = none := by
      refine ListSearch.search_eq_none_iff.mpr fun k hoccurs => ?_
      have hlength := hoccurs.le_length hdelim
      omega
    rw [hnone, findInSpan, if_pos (by simp [hshort])]
  · rw [findInSpan, if_neg (by simp [hdelim, hshort])]
    split
    next hone =>
      obtain ⟨needle, rfl⟩ := List.length_eq_one_iff.mp hone
      exact findByteInSpan_eq_search data needle
    next => rfl

theorem overlapStart_eq (delim : List UInt8) (currentSize : Nat) :
    overlapStart delim currentSize = currentSize - (delim.length - 1) := by
  rw [overlapStart]
  split <;> omega

/-- The chunk goes right behind the data received before. -/
theorem copyTo_append (data rest chunk : List UInt8) :
    copyTo (data ++ rest) chunk data.length =
      (data ++ chunk) ++ rest.drop chunk.length := by
  rw [copyTo, List.take_left' rfl, ← List.drop_drop, List.drop_left' rfl]

/-- A read leaves the buffer behind the chunk as it was. -/
theorem drop_copied {data rest chunk : List UInt8} {n : Nat}
    (hn : (data ++ chunk).length ≤ n) :
    ((data ++ chunk) ++ rest.drop chunk.length).drop n = (data ++ rest).drop n := by
  obtain ⟨d, rfl⟩ := Nat.exists_eq_add_of_le hn
  have hnew : ((data ++ chunk) ++ rest.drop chunk.length).drop
      ((data ++ chunk).length + d) = rest.drop (chunk.length + d) := by
    rw [← List.drop_drop, List.drop_left' rfl, List.drop_drop]
  have hold : (data ++ rest).drop ((data ++ chunk).length + d) =
      rest.drop (chunk.length + d) := by
    rw [List.length_append, Nat.add_assoc, ← List.drop_drop, List.drop_left' rfl]
  rw [hnew, hold]

theorem length_copied {data rest chunk : List UInt8}
    (hfits : chunk.length ≤ rest.length) :
    ((data ++ chunk) ++ rest.drop chunk.length).length = (data ++ rest).length := by
  simp only [List.length_append, List.length_drop]
  omega

theorem NaiveRun.length_le {size : Nat} {data final : List UInt8} {reads : List Nat}
    {outcome : Outcome Ec}
    (hrun : NaiveRun stream delim size data reads outcome final) :
    data.length ≤ final.length := by
  induction hrun with
  | more _ _ _ _ ih =>
      rw [List.length_append] at ih
      omega
  | _ => exact Nat.le_refl _

/-- The search of the end of the buffer finds what a search of all of it would. -/
theorem find_after_read (hdelim : delim ≠ []) {data : List UInt8}
    (hnone : search delim data = none) (chunk : List UInt8) :
    search delim (data ++ chunk) =
      (findInSpan ((data ++ chunk).drop (overlapStart delim data.length)) delim).map
        (overlapStart delim data.length + ·) := by
  rw [findInSpan_eq_search hdelim, overlapStart_eq]
  exact ListSearch.search_append hnone chunk

/-- With nothing found in the data so far the loop does what the naive search does,
and there is fuel for as many reads as there are free bytes. -/
theorem Span.loop_run (stream : Stream Ec) (hdelim : delim ≠ []) :
    ∀ (fuel : Nat) (data rest : List UInt8) (reads : List Nat),
      search delim data = none → rest.length < fuel →
      ∃ outcome final,
        Span.loop stream delim fuel (data ++ rest) data.length
            (overlapStart delim data.length) reads =
          some (outcome, final ++ (data ++ rest).drop final.length) ∧
        NaiveRun stream delim (data ++ rest).length data reads outcome final
  | 0, _, _, _, _, hfuel => absurd hfuel (Nat.not_lt_zero _)
  | fuel + 1, data, rest, reads, hnone, hfuel => by
      have habsent := ListSearch.search_eq_none_iff.mp hnone
      have hkept : data ++ rest = data ++ (data ++ rest).drop data.length := by
        rw [List.drop_left' rfl]
      rw [Span.loop]
      by_cases hspace : data.length < (data ++ rest).length
      · simp only [if_pos hspace]
        cases hread : stream reads.length ((data ++ rest).length - data.length) with
        | error ec =>
            exact ⟨_, data, congrArg (fun kept => some (_, kept)) hkept,
              NaiveRun.failed habsent hspace hread⟩
        | endOfStream =>
            exact ⟨_, data, congrArg (fun kept => some (_, kept)) hkept,
              NaiveRun.ended habsent hspace hread⟩
        | bytes chunk hchunk hfits =>
            have hfits' : chunk.length ≤ rest.length := by
              simpa using hfits
            have hpos := List.length_pos_iff.mpr hchunk
            have htake : ((data ++ chunk) ++ rest.drop chunk.length).take
                (data.length + chunk.length) = data ++ chunk := by
              rw [← List.length_append, List.take_left' rfl]
            have hfind := find_after_read hdelim hnone chunk
            simp only [copyTo_append, htake]
            cases hend : findInSpan
                ((data ++ chunk).drop (overlapStart delim data.length)) delim with
            | some pos =>
                rw [hend] at hfind
                have hfirst := ListSearch.search_eq_some_iff.mp hfind
                refine ⟨_, data ++ chunk, ?_,
                  NaiveRun.more habsent hspace hread (NaiveRun.found hfirst)⟩
                rw [← drop_copied (Nat.le_refl _), List.drop_left' rfl]
            | none =>
                rw [hend] at hfind
                obtain ⟨outcome, final, hloop, hrun⟩ :=
                  Span.loop_run stream hdelim fuel (data ++ chunk)
                    (rest.drop chunk.length)
                    (reads ++ [(data ++ rest).length - data.length]) hfind
                    (by rw [List.length_drop]; omega)
                rw [length_copied hfits'] at hrun
                rw [drop_copied hrun.length_le, List.length_append] at hloop
                exact ⟨outcome, final, hloop,
                  NaiveRun.more habsent hspace hread hrun⟩
      · rw [if_neg hspace]
        have hfull : data.length = (data ++ rest).length := by
          rw [List.length_append] at hspace ⊢
          omega
        exact ⟨_, data, congrArg (fun kept => some (_, kept)) hkept,
          NaiveRun.full habsent hfull⟩

/-- What was found is the first occurrence in all that was received. -/
theorem NaiveRun.firstAt {size m : Nat} {data final : List UInt8} {reads : List Nat}
    {outcome : Outcome Ec} (hrun : NaiveRun stream delim size data reads outcome final)
    (hfound : outcome.result = .ok m) :
    ∃ k, m = k + delim.length ∧ FirstAt delim final k := by
  induction hrun with
  | found hfirst =>
      cases hfound
      exact ⟨_, rfl, hfirst⟩
  | more _ _ _ _ ih => exact ih hfound
  | _ => nomatch hfound

theorem NaiveRun.unique {size : Nat} {data final final' : List UInt8}
    {reads : List Nat} {outcome outcome' : Outcome Ec}
    (hrun : NaiveRun stream delim size data reads outcome final)
    (hrun' : NaiveRun stream delim size data reads outcome' final') :
    outcome' = outcome ∧ final' = final := by
  induction hrun with
  | found hfirst =>
      cases hrun' with
      | found hfirst' => exact ⟨by rw [hfirst'.unique hfirst], rfl⟩
      | full hnone => exact absurd hfirst.occurs (hnone _)
      | failed hnone => exact absurd hfirst.occurs (hnone _)
      | ended hnone => exact absurd hfirst.occurs (hnone _)
      | more hnone => exact absurd hfirst.occurs (hnone _)
  | full hnone hfull =>
      cases hrun' with
      | found hfirst => exact absurd hfirst.occurs (hnone _)
      | full => exact ⟨rfl, rfl⟩
      | failed _ hspace => omega
      | ended _ hspace => omega
      | more _ hspace => omega
  | failed hnone hspace hread =>
      cases hrun' with
      | found hfirst => exact absurd hfirst.occurs (hnone _)
      | full _ hfull => omega
      | failed _ _ hread' =>
          rw [hread] at hread'
          cases hread'
          exact ⟨rfl, rfl⟩
      | ended _ _ hread' => nomatch hread.symm.trans hread'
      | more _ _ hread' => nomatch hread.symm.trans hread'
  | ended hnone hspace hread =>
      cases hrun' with
      | found hfirst => exact absurd hfirst.occurs (hnone _)
      | full _ hfull => omega
      | failed _ _ hread' => nomatch hread.symm.trans hread'
      | ended => exact ⟨rfl, rfl⟩
      | more _ _ hread' => nomatch hread.symm.trans hread'
  | more hnone hspace hread _ ih =>
      cases hrun' with
      | found hfirst => exact absurd hfirst.occurs (hnone _)
      | full _ hfull => omega
      | failed _ _ hread' => nomatch hread.symm.trans hread'
      | ended _ _ hread' => nomatch hread.symm.trans hread'
      | more _ _ hread' hrest =>
          rw [hread] at hread'
          cases hread'
          exact ih hrest

/-- The call, on valid arguments, runs as the naive search does. -/
theorem asyncReadUntil_run {buf : List UInt8} {initialSize : Nat} (hdelim : delim ≠ [])
    (hsize : initialSize ≤ buf.length) :
    ∃ outcome final,
      asyncReadUntil stream buf delim initialSize =
        some (outcome, final ++ buf.drop final.length) ∧
      NaiveRun stream delim buf.length (buf.take initialSize) [] outcome final := by
  have hfast : (if initialSize ≥ delim.length then
      findInSpan (buf.take initialSize) delim else none) =
        search delim (buf.take initialSize) := by
    split
    next => exact findInSpan_eq_search hdelim _
    next hshort =>
      symm
      refine ListSearch.search_eq_none_iff.mpr fun k hoccurs => ?_
      have hlength := hoccurs.le_length hdelim
      rw [List.length_take] at hlength
      omega
  have hlength : (buf.take initialSize).length = initialSize := by
    rw [List.length_take]
    omega
  rw [asyncReadUntil, if_neg (by simpa using hdelim), if_neg (by omega), hfast]
  cases hsearch : search delim (buf.take initialSize) with
  | some pos =>
      refine ⟨_, buf.take initialSize, ?_,
        NaiveRun.found (ListSearch.search_eq_some_iff.mp hsearch)⟩
      rw [hlength, List.take_append_drop]
  | none =>
      have hrun := Span.loop_run stream hdelim (buf.length + 1)
        (buf.take initialSize) (buf.drop initialSize) [] hsearch
        (by rw [List.length_drop]; omega)
      rw [List.take_append_drop, hlength] at hrun
      exact hrun

theorem Char.loop_eq (stream : Stream Ec) (needle : UInt8) :
    ∀ (fuel : Nat) (buf : List UInt8) (currentSize : Nat) (reads : List Nat),
      Char.loop stream needle fuel buf currentSize currentSize reads =
        Span.loop stream [needle] fuel buf currentSize
          (overlapStart [needle] currentSize) reads
  | 0, _, _, _ => rfl
  | fuel + 1, buf, currentSize, reads => by
      have hoffered : (buf.drop currentSize).length = buf.length - currentSize :=
        List.length_drop
      rw [Char.loop, Span.loop, overlapStart_eq]
      generalize (buf.drop currentSize).length = offered at hoffered
      subst hoffered
      simp only [List.length_singleton, Nat.sub_self, Nat.sub_zero,
        findInSpan_singleton, Char.loop_eq stream needle fuel]

theorem asyncReadUntilChar_eq_span (buf : List UInt8) (needle : UInt8)
    (initialSize : Nat) :
    asyncReadUntilChar stream buf needle initialSize =
      asyncReadUntil stream buf [needle] initialSize := by
  have hloop := Char.loop_eq stream needle (buf.length + 1) buf initialSize []
  rw [asyncReadUntilChar, asyncReadUntil, hloop]
  simp only [findInSpan_singleton, List.length_singleton, List.isEmpty_cons,
    Bool.false_eq_true, if_false, gt_iff_lt, ge_iff_le, Nat.one_le_iff_ne_zero,
    Nat.pos_iff_ne_zero]

/-- Two runs that received beginnings of the same data and found the delimiter found
it at the same place. -/
theorem NaiveRun.position_eq {stream' : Stream Ec} {size size' : Nat}
    {data data' final final' whole : List UInt8} {reads reads' : List Nat}
    {outcome outcome' : Outcome Ec} {m m' : Nat} (hdelim : delim ≠ [])
    (hrun : NaiveRun stream delim size data reads outcome final)
    (hrun' : NaiveRun stream' delim size' data' reads' outcome' final')
    (hwithin : final <+: whole) (hwithin' : final' <+: whole)
    (hfound : outcome.result = .ok m) (hfound' : outcome'.result = .ok m') :
    m = m' := by
  obtain ⟨k, rfl, hfirst⟩ := hrun.firstAt hfound
  obtain ⟨k', rfl, hfirst'⟩ := hrun'.firstAt hfound'
  obtain ⟨more, rfl⟩ := hwithin
  obtain ⟨more', hmore'⟩ := hwithin'
  have hwhole := hfirst'.append hdelim more'
  rw [hmore'] at hwhole
  rw [(hfirst.append hdelim more).unique hwhole]

/-- The call does what the naive search does, wherever the stream cuts its data. -/
theorem asyncReadUntil_naive (stream : Stream Ec) (buf delim : List UInt8)
    (initialSize : Nat) :
    (delim = [] ∨ buf.length < initialSize →
      asyncReadUntil stream buf delim initialSize =
        some (⟨.error .invalidArgument, []⟩, buf)) ∧
    (delim ≠ [] → initialSize ≤ buf.length →
      ∃ outcome final,
        asyncReadUntil stream buf delim initialSize =
          some (outcome, final ++ buf.drop final.length) ∧
        NaiveRun stream delim buf.length (buf.take initialSize) [] outcome final ∧
        ∀ outcome' final',
          NaiveRun stream delim buf.length (buf.take initialSize) [] outcome' final' →
          outcome' = outcome ∧ final' = final) ∧
    (delim ≠ [] →
      ∀ (stream' : Stream Ec) (size' : Nat) (data' whole final final' : List UInt8)
        (reads reads' : List Nat) (m m' : Nat),
        NaiveRun stream delim buf.length (buf.take initialSize) []
          ⟨.ok m, reads⟩ final →
        NaiveRun stream' delim size' data' [] ⟨.ok m', reads'⟩ final' →
        final <+: whole → final' <+: whole → m = m') ∧
    ∀ needle, asyncReadUntilChar stream buf needle initialSize =
      asyncReadUntil stream buf [needle] initialSize := by
  refine ⟨fun hinvalid => ?_, fun hdelim hsize => ?_, fun hdelim => ?_,
    fun needle => asyncReadUntilChar_eq_span buf needle initialSize⟩
  · rw [asyncReadUntil]
    split
    next => rfl
    next hdelim =>
      rw [if_pos (hinvalid.resolve_left (by simpa using hdelim))]
  · obtain ⟨outcome, final, hcall, hrun⟩ := asyncReadUntil_run hdelim hsize
    exact ⟨outcome, final, hcall, hrun, fun _ _ hrun' => hrun.unique hrun'⟩
  · intro stream' size' data' whole final final' reads reads' m m' hrun hrun' hwithin
      hwithin'
    exact hrun.position_eq hdelim hrun' hwithin hwithin' rfl rfl

/-- A stream that cuts the line end in two. -/
def cutLineEnd : Stream Unit
  | 0, offered => if h : 2 ≤ offered then .bytes [97, 13] (by decide) h else .error ()
  | 1, offered => if h : 2 ≤ offered then .bytes [10, 98] (by decide) h else .error ()
  | _, _ => .endOfStream

theorem asyncReadUntil_naive_cutLineEnd :
    ∃ final, NaiveRun cutLineEnd [13, 10] 8 [] [] ⟨.ok 3, [8, 6]⟩ final := by
  obtain ⟨outcome, final, hcall, hrun, _⟩ :=
    (asyncReadUntil_naive cutLineEnd (List.replicate 8 0) [13, 10] 0).2.1
      (by decide) (by decide)
  have heval : (asyncReadUntil cutLineEnd (List.replicate 8 0) [13, 10] 0).map
      Prod.fst = some ⟨.ok 3, [8, 6]⟩ := rfl
  rw [hcall] at heval
  obtain rfl : outcome = ⟨.ok 3, [8, 6]⟩ := Option.some.inj heval
  exact ⟨final, hrun⟩

end ReadUntil

end Iocoro
