import Mathlib.Data.List.Nodup
import Starnet.Netpack.Queue

/-! Parsing of the byte streams of many connections by `filter_data`, and the packets that a service
obtains from it. Each connection's packets are the frames of its own stream, however the stream is
cut into chunks and whatever arrives on other connections in between. -/

namespace Starnet.LuaNetpack

open Framing

namespace Queue

/-- `push_more`: complete packets go to the ring, an incomplete one to the hash table. -/
def pushMore (q : Queue) (fd : Int32) : List UInt8 → Queue
  | [] => q
  | [header] => q.saveUncomplete fd fun uc => { uc with read := -1, header }
  | hi :: lo :: buffer =>
    let packSize := readSize hi lo
    if buffer.length < packSize then
      q.saveUncomplete fd fun uc =>
        { uc with read := buffer.length, size := packSize, buffer }
    else
      pushMore (q.pushData fd buffer packSize) fd (buffer.drop packSize)
termination_by buffer => buffer.length
decreasing_by exact length_drop_lt ..

/-- What `filter_data` returns to Lua. -/
inductive Filtered
  | none
  | data (fd : Int32) (msg : List UInt8)
  | more (fd : Int32) (msg : List UInt8)
  deriving DecidableEq, Repr

/-- The first lines of `filter_data` for an entry of which only the first length byte is known. -/
def completeHeader (uc : Uncomplete) (buffer : List UInt8) : Uncomplete × List UInt8 :=
  match buffer with
  | lo :: rest =>
    if uc.read < 0 then
      ({ uc with size := lo.toNat ||| uc.header.toNat <<< 8, buffer := [], read := 0 }, rest)
    else (uc, buffer)
  | [] => (uc, buffer)

/-- The rest of `filter_data` for an entry `uc` of `fd` with a known size, which is no longer in the
table. -/
def fill (q : Queue) (fd : Int32) (uc : Uncomplete) (buffer : List UInt8) : Filtered × Queue :=
  let need := uc.size - uc.read.toNat
  if buffer.length < need then
    (.none, q.link fd { uc with
      buffer := uc.buffer ++ buffer
      read := uc.read + buffer.length })
  else
    let first := uc.buffer ++ buffer.take need
    let buffer := buffer.drop need
    if buffer.length = 0 then (.data fd first, q)
    else (.more fd first, q.pushMore fd buffer)

/-- `filter_data` when `fd` has no entry. -/
def filterFresh (q : Queue) (fd : Int32) : List UInt8 → Filtered × Queue
  | [] => (.none, q)
  | [header] => (.none, q.saveUncomplete fd fun uc => { uc with read := -1, header })
  | hi :: lo :: buffer =>
    let packSize := readSize hi lo
    if buffer.length < packSize then
      (.none, q.saveUncomplete fd fun uc =>
        { uc with read := buffer.length, size := packSize, buffer })
    else if buffer.length = packSize then (.data fd buffer, q)
    else (.more fd (buffer.take packSize), q.pushMore fd (buffer.drop packSize))

/-- `filter_data`. -/
def filterData (q : Queue) (fd : Int32) (buffer : List UInt8) : Filtered × Queue :=
  if buffer.length = 0 then (.none, q)
  else
    match q.findUncomplete fd with
    | (some uc, q) => q.fill fd (completeHeader uc buffer).1 (completeHeader uc buffer).2
    | (none, q) => q.filterFresh fd buffer

end Queue

/-! ### The length header -/

theorem readSize_eq (hi lo : UInt8) : readSize hi lo = hi.toNat * 256 + lo.toNat := by
  have lt := lo.toNat_lt
  rw [readSize, ← Nat.shiftLeft_add_eq_or_of_lt (by simpa using lt), Nat.shiftLeft_eq]

theorem readSize_lt (hi lo : UInt8) : readSize hi lo < 65536 := by
  have := hi.toNat_lt
  have := lo.toNat_lt
  rw [readSize_eq]
  omega

/-- The two bytes of a size. -/
theorem readSize_bytes {size : Nat} (h : size < 65536) :
    readSize (UInt8.ofNat (size >>> 8)) (UInt8.ofNat size) = size := by
  rw [readSize_eq, UInt8.toNat_ofNat', UInt8.toNat_ofNat', Nat.shiftRight_eq_div_pow]
  omega

/-! ### Incomplete packets -/

namespace Uncomplete

/-- The bytes of the stream that an entry stands for. -/
def bytes (uc : Uncomplete) : List UInt8 :=
  if uc.read < 0 then [uc.header]
  else UInt8.ofNat (uc.size >>> 8) :: UInt8.ofNat uc.size :: uc.buffer

/-- An entry with a known size has `read` bytes in its buffer, and some are missing. -/
structure Valid (uc : Uncomplete) : Prop where
  read : 0 ≤ uc.read → uc.read = uc.buffer.length
  short : 0 ≤ uc.read → uc.buffer.length < uc.size
  size : 0 ≤ uc.read → uc.size < 65536

theorem bytes_header {uc : Uncomplete} (h : uc.read < 0) : uc.bytes = [uc.header] := if_pos h

theorem bytes_body {uc : Uncomplete} (h : 0 ≤ uc.read) :
    uc.bytes = UInt8.ofNat (uc.size >>> 8) :: UInt8.ofNat uc.size :: uc.buffer :=
  if_neg (Int.not_lt.mpr h)

theorem bytes_ne_nil (uc : Uncomplete) : uc.bytes ≠ [] := by
  unfold bytes
  split <;> simp

/-- An entry holds no complete frame. -/
theorem Valid.parse_bytes {uc : Uncomplete} (entry : uc.Valid) :
    parse readSize uc.bytes = ([], uc.bytes) := by
  by_cases header : uc.read < 0
  · rw [bytes_header header, parse_singleton]
  · have known := Int.not_lt.mp header
    rw [bytes_body known, parse_incomplete]
    rw [readSize_bytes (entry.size known)]
    exact entry.short known

/-- The bytes of an entry saved from a stream with the length header `hi`, `lo`. -/
theorem bytes_of_readSize {uc : Uncomplete} {hi lo : UInt8} (h : 0 ≤ uc.read)
    (size : uc.size = readSize hi lo) : uc.bytes = hi :: lo :: uc.buffer := by
  have hiByte : UInt8.ofNat (uc.size >>> 8) = hi := by
    apply UInt8.toNat_inj.mp
    have := hi.toNat_lt
    have := lo.toNat_lt
    rw [UInt8.toNat_ofNat', size, readSize_eq, Nat.shiftRight_eq_div_pow]
    omega
  have loByte : UInt8.ofNat uc.size = lo := by
    apply UInt8.toNat_inj.mp
    have := lo.toNat_lt
    rw [UInt8.toNat_ofNat', size, readSize_eq]
    omega
  rw [bytes_body h, hiByte, loByte]

end Uncomplete

/-- The bytes of the entry of `fd` in a chain. -/
def pendingIn (chain : List Uncomplete) (fd : Int32) : List UInt8 :=
  match chain.find? (·.id = fd) with
  | none => []
  | some uc => uc.bytes

section Chain

variable {uc : Uncomplete} {chain : List Uncomplete} {fd fd' : Int32}

theorem pendingIn_cons_same (h : uc.id = fd) : pendingIn (uc :: chain) fd = uc.bytes := by
  simp [pendingIn, h]

theorem pendingIn_cons_other (h : uc.id ≠ fd) :
    pendingIn (uc :: chain) fd = pendingIn chain fd := by
  simp [pendingIn, h]

theorem pendingIn_absent (h : fd ∉ chain.map Uncomplete.id) : pendingIn chain fd = [] := by
  have none : chain.find? (·.id = fd) = none := by
    simpa using fun uc mem eq => h (List.mem_map.mpr ⟨uc, mem, eq⟩)
  simp only [pendingIn, none]

/-- A connection without pending bytes has no entry. -/
theorem absent_of_pendingIn (h : pendingIn chain fd = []) : fd ∉ chain.map Uncomplete.id := by
  intro mem
  obtain ⟨uc, mem, id⟩ := List.mem_map.mp mem
  unfold pendingIn at h
  split at h
  · rename_i none
    simp only [List.find?_eq_none, decide_eq_true_eq] at none
    exact none uc mem id
  · exact Uncomplete.bytes_ne_nil _ h

theorem pendingIn_erase_same (fd : Int32) (unique : (chain.map Uncomplete.id).Nodup) :
    pendingIn (chain.eraseP (·.id = fd)) fd = [] := by
  induction chain with
  | nil => rfl
  | cons uc chain ih =>
    obtain ⟨fresh, unique⟩ := List.nodup_cons.mp unique
    by_cases same : uc.id = fd
    · rw [List.eraseP_cons_of_pos (by simpa using same)]
      exact pendingIn_absent (same ▸ fresh)
    · rw [List.eraseP_cons_of_neg (by simpa using same), pendingIn_cons_other same]
      exact ih unique

theorem pendingIn_erase_other (ne : fd' ≠ fd) :
    pendingIn (chain.eraseP (·.id = fd)) fd' = pendingIn chain fd' := by
  induction chain with
  | nil => rfl
  | cons uc chain ih =>
    by_cases same : uc.id = fd
    · rw [List.eraseP_cons_of_pos (by simpa using same), pendingIn_cons_other (same ▸ ne.symm)]
    · rw [List.eraseP_cons_of_neg (by simpa using same)]
      by_cases other : uc.id = fd'
      · rw [pendingIn_cons_same other, pendingIn_cons_same other]
      · rw [pendingIn_cons_other other, pendingIn_cons_other other, ih]

end Chain

namespace Queue

variable {q q' q'' : Queue} {fd : Int32} {msgs msgs' : List (List UInt8)} {left left' : List UInt8}

/-- The bytes of the stream of `fd` that belong to no complete packet yet. -/
def pending (q : Queue) (fd : Int32) : List UInt8 := pendingIn (q.hash (hashFd fd)) fd

/-- A chain of the slot `h` holds valid entries of its own connections, at most one for each. -/
structure ValidChain (h : Fin hashSize) (chain : List Uncomplete) : Prop where
  home : ∀ uc ∈ chain, hashFd uc.id = h
  unique : (chain.map Uncomplete.id).Nodup
  entries : ∀ uc ∈ chain, uc.Valid

/-- The ring's indices are in bounds and the chains are valid. -/
structure Valid (q : Queue) : Prop where
  bounds : q.InBounds
  chains : ∀ h, ValidChain h (q.hash h)

theorem lcreate_valid : lcreate.Valid :=
  ⟨⟨by decide, by decide⟩, fun _ => ⟨by simp [lcreate], by simp [lcreate], by simp [lcreate]⟩⟩

/-- What parsing a piece of the stream of `fd` does to the queue: the packets `msgs` are appended to
the ring, the bytes `left` remain, and no other connection is touched. -/
structure Receives (q q' : Queue) (fd : Int32) (msgs : List (List UInt8)) (left : List UInt8) :
    Prop where
  valid : q'.Valid
  packets : q'.packets = q.packets ++ msgs.map fun msg => (fd, msg)
  pending : q'.pending fd = left
  others : ∀ fd', fd' ≠ fd → q'.pending fd' = q.pending fd'

theorem Receives.trans (h : q.Receives q' fd msgs left) (h' : q'.Receives q'' fd msgs' left') :
    q.Receives q'' fd (msgs ++ msgs') left' := by
  refine ⟨h'.valid, ?_, h'.pending, fun fd' ne => (h'.others fd' ne).trans (h.others fd' ne)⟩
  rw [h'.packets, h.packets, List.map_append, List.append_assoc]

/-- A new chain for `fd` that agrees with the old one on every other connection. -/
theorem receives_setChain (valid : q.Valid) {chain : List Uncomplete}
    (validChain : ValidChain (hashFd fd) chain)
    (others : ∀ fd', fd' ≠ fd → pendingIn chain fd' = pendingIn (q.hash (hashFd fd)) fd') :
    q.Receives (q.setChain fd chain) fd [] (pendingIn chain fd) := by
  refine ⟨⟨⟨valid.bounds.head, valid.bounds.tail⟩, fun h => ?_⟩, by simp [packets, setChain], ?_,
    fun fd' ne => ?_⟩
  · by_cases same : h = hashFd fd
    · rw [setChain_hash_same q chain same, same]
      exact validChain
    · rw [setChain_hash_other q chain same]
      exact valid.chains h
  · rw [pending, setChain_hash_same q chain rfl]
  · by_cases same : hashFd fd' = hashFd fd
    · rw [pending, pending, setChain_hash_same q chain same, others fd' ne, same]
    · rw [pending, pending, setChain_hash_other q chain same]

/-- The entry of `fd` and the queue without it. -/
theorem findUncomplete_spec (valid : q.Valid) (fd : Int32) :
    (q.findUncomplete fd = (none, q) ∧ q.pending fd = []) ∨
      ∃ uc q', q.findUncomplete fd = (some uc, q') ∧ uc.id = fd ∧ uc.Valid ∧
        q.pending fd = uc.bytes ∧ q.Receives q' fd [] [] := by
  have chain := valid.chains (hashFd fd)
  unfold findUncomplete
  cases found : (q.hash (hashFd fd)).find? (·.id = fd) with
  | none =>
    left
    simp only [pending, pendingIn, found, and_self]
  | some uc =>
    right
    refine ⟨uc, _, rfl, by simpa using List.find?_some found,
      chain.entries uc (List.mem_of_find?_eq_some found), ?_, ?_⟩
    · simp only [pending, pendingIn, found]
    · rw [← pendingIn_erase_same fd chain.unique]
      refine receives_setChain valid ⟨fun uc mem => ?_, ?_, fun uc mem => ?_⟩
        fun fd' ne => pendingIn_erase_other ne
      · exact chain.home uc (List.mem_of_mem_eraseP mem)
      · exact chain.unique.sublist (List.Sublist.map _ List.eraseP_sublist)
      · exact chain.entries uc (List.mem_of_mem_eraseP mem)

/-- A new entry for a connection that has none. -/
theorem link_spec (valid : q.Valid) (uc : Uncomplete) (id : uc.id = fd) (entry : uc.Valid)
    (none : q.pending fd = []) : q.Receives (q.link fd uc) fd [] uc.bytes := by
  have chain := valid.chains (hashFd fd)
  have bytes : pendingIn (uc :: q.hash (hashFd fd)) fd = uc.bytes := pendingIn_cons_same id
  rw [← bytes]
  refine receives_setChain valid ⟨?_, ?_, ?_⟩ fun fd' ne => ?_
  · exact List.forall_mem_cons.mpr ⟨by rw [id], chain.home⟩
  · rw [List.map_cons, id]
    exact List.nodup_cons.mpr ⟨absent_of_pendingIn none, chain.unique⟩
  · exact List.forall_mem_cons.mpr ⟨entry, chain.entries⟩
  · exact pendingIn_cons_other (id ▸ ne.symm)

theorem pushData_receives (valid : q.Valid) (none : q.pending fd = []) (buffer : List UInt8)
    (size : Nat) : q.Receives (q.pushData fd buffer size) fd [buffer.take size] [] := by
  obtain ⟨bounds, packets, hash⟩ := pushData_spec valid.bounds fd buffer size
  have same : ∀ fd', (q.pushData fd buffer size).pending fd' = q.pending fd' := fun fd' => by
    rw [pending, pending, hash]
  exact ⟨⟨bounds, by rw [hash]; exact valid.chains⟩, packets, (same fd).trans none,
    fun fd' _ => same fd'⟩

theorem header_receives (valid : q.Valid) (none : q.pending fd = []) (header : UInt8) :
    q.Receives (q.saveUncomplete fd fun uc => { uc with read := -1, header }) fd [] [header] :=
  link_spec valid _ rfl ⟨by simp, by simp, by simp⟩ none

theorem body_receives (valid : q.Valid) (none : q.pending fd = []) {hi lo : UInt8}
    {buffer : List UInt8} (short : buffer.length < readSize hi lo) :
    q.Receives (q.saveUncomplete fd fun uc =>
      { uc with read := buffer.length, size := readSize hi lo, buffer }) fd []
      (hi :: lo :: buffer) := by
  have entry := link_spec valid
    { id := fd, read := buffer.length, size := readSize hi lo, buffer } rfl
    ⟨fun _ => rfl, fun _ => short, fun _ => readSize_lt hi lo⟩ none
  rwa [Uncomplete.bytes_of_readSize (Int.natCast_nonneg _) rfl] at entry

theorem Receives.refl (valid : q.Valid) (fd : Int32) : q.Receives q fd [] (q.pending fd) :=
  ⟨valid, by simp, rfl, fun _ _ => rfl⟩

/-- `push_more` parses a stream into the ring and the table. -/
theorem pushMore_receives (valid : q.Valid) (none : q.pending fd = []) (stream : List UInt8) :
    q.Receives (q.pushMore fd stream) fd (payloads readSize stream)
      (leftover readSize stream) := by
  induction q, stream using pushMore.induct fd with
  | case1 q =>
    rw [pushMore, payloads, leftover, parse_nil, ← none]
    exact .refl valid fd
  | case2 q header =>
    rw [pushMore, payloads, leftover, parse_singleton]
    exact header_receives valid none header
  | case3 q hi lo buffer packSize short =>
    rw [pushMore, if_pos short, payloads, leftover, parse_incomplete short]
    exact body_receives valid none short
  | case4 q hi lo buffer packSize complete ih =>
    have pushed := pushData_receives valid none buffer packSize
    rw [pushMore, if_neg complete, payloads, leftover, parse_complete (Nat.not_lt.mp complete)]
    exact pushed.trans (ih pushed.valid pushed.pending)

/-- What `filter_data` and the queue after it say of the stream of `fd`, of which the queue holds
the first bytes: the packet returned and those in the ring are its frames. -/
def Yields (q : Queue) (fd : Int32) (stream : List UInt8) : Filtered × Queue → Prop
  | (.none, q') =>
    payloads readSize stream = [] ∧ q.Receives q' fd [] (leftover readSize stream)
  | (.data fd' msg, q') => fd' = fd ∧ payloads readSize stream = [msg] ∧
    q.Receives q' fd [] (leftover readSize stream)
  | (.more fd' msg, q') => fd' = fd ∧ ∃ msgs, payloads readSize stream = msg :: msgs ∧
    q.Receives q' fd msgs (leftover readSize stream)

theorem filterFresh_yields (valid : q.Valid) (none : q.pending fd = []) (stream : List UInt8) :
    q.Yields fd stream (q.filterFresh fd stream) := by
  match stream with
  | [] =>
    refine ⟨by rw [payloads, parse_nil], ?_⟩
    rw [leftover, parse_nil, ← none]
    exact .refl valid fd
  | [header] =>
    refine ⟨by rw [payloads, parse_singleton], ?_⟩
    rw [leftover, parse_singleton]
    exact header_receives valid none header
  | hi :: lo :: buffer =>
    simp only [filterFresh]
    by_cases short : buffer.length < readSize hi lo
    · rw [if_pos short]
      refine ⟨by rw [payloads, parse_incomplete short], ?_⟩
      rw [leftover, parse_incomplete short]
      exact body_receives valid none short
    · have complete := Nat.not_lt.mp short
      rw [if_neg short]
      by_cases exactly : buffer.length = readSize hi lo
      · rw [if_pos exactly]
        have parsed : parse readSize (hi :: lo :: buffer) = ([buffer], []) := by
          rw [parse_complete complete, ← exactly, List.take_length, List.drop_length, parse_nil]
        refine ⟨rfl, by rw [payloads, parsed], ?_⟩
        rw [leftover, parsed, ← none]
        exact .refl valid fd
      · rw [if_neg exactly]
        refine ⟨rfl, payloads readSize (buffer.drop (readSize hi lo)), ?_, ?_⟩
        · rw [payloads, parse_complete complete]
          rfl
        · rw [leftover, parse_complete complete]
          exact pushMore_receives valid none _

/-- Filling up an entry with a known size. -/
theorem fill_yields (valid : q.Valid) (none : q.pending fd = []) {uc : Uncomplete} (id : uc.id = fd)
    (read : uc.read = uc.buffer.length) (fits : uc.buffer.length ≤ uc.size)
    (size : uc.size < 65536) (buffer : List UInt8) :
    q.Yields fd (uc.bytes ++ buffer) (q.fill fd uc buffer) := by
  have known : 0 ≤ uc.read := by omega
  have need : uc.size - uc.read.toNat = uc.size - uc.buffer.length := by omega
  have header := readSize_bytes size
  have whole : uc.bytes ++ buffer = UInt8.ofNat (uc.size >>> 8) :: UInt8.ofNat uc.size ::
      (uc.buffer ++ buffer) := by rw [Uncomplete.bytes_body known]; rfl
  unfold fill
  rw [need, whole]
  by_cases short : buffer.length < uc.size - uc.buffer.length
  · have missing : (uc.buffer ++ buffer).length < uc.size := by
      rw [List.length_append]
      omega
    have incomplete := missing
    rw [← header] at incomplete
    rw [if_pos short]
    refine ⟨by rw [payloads, parse_incomplete incomplete], ?_⟩
    rw [leftover, parse_incomplete incomplete]
    have entry := link_spec valid
      { uc with buffer := uc.buffer ++ buffer, read := uc.read + buffer.length } id
      ⟨fun _ => by rw [read, List.length_append]; push_cast; rfl,
        fun _ => missing, fun _ => size⟩ none
    rwa [Uncomplete.bytes_body (by dsimp only; omega)] at entry
  · have complete : readSize (UInt8.ofNat (uc.size >>> 8)) (UInt8.ofNat uc.size) ≤
        (uc.buffer ++ buffer).length := by
      rw [header, List.length_append]
      omega
    have taken : (uc.buffer ++ buffer).take uc.size =
        uc.buffer ++ buffer.take (uc.size - uc.buffer.length) := by
      rw [List.take_append, List.take_of_length_le fits]
    have dropped : (uc.buffer ++ buffer).drop uc.size =
        buffer.drop (uc.size - uc.buffer.length) := by
      rw [List.drop_append, List.drop_of_length_le fits, List.nil_append]
    have parsed := parse_complete complete
    rw [header, taken, dropped] at parsed
    rw [if_neg short]
    by_cases empty : (buffer.drop (uc.size - uc.buffer.length)).length = 0
    · rw [if_pos empty]
      rw [List.length_eq_zero_iff.mp empty, parse_nil] at parsed
      refine ⟨rfl, by rw [payloads, parsed], ?_⟩
      rw [leftover, parsed, ← none]
      exact .refl valid fd
    · rw [if_neg empty]
      refine ⟨rfl, payloads readSize (buffer.drop (uc.size - uc.buffer.length)), ?_, ?_⟩
      · rw [payloads, parsed]
        rfl
      · rw [leftover, parsed]
        exact pushMore_receives valid none _

/-- The first length byte of an entry is completed, if the second was missing. -/
theorem completeHeader_spec {uc uc' : Uncomplete} (entry : uc.Valid) {buffer buffer' : List UInt8}
    (nonempty : buffer ≠ []) (h : completeHeader uc buffer = (uc', buffer')) :
    uc'.id = uc.id ∧ uc'.read = uc'.buffer.length ∧ uc'.buffer.length ≤ uc'.size ∧
      uc'.size < 65536 ∧ uc'.bytes ++ buffer' = uc.bytes ++ buffer := by
  obtain ⟨lo, rest, rfl⟩ := List.exists_cons_of_ne_nil nonempty
  unfold completeHeader at h
  by_cases header : uc.read < 0
  · have size : lo.toNat ||| uc.header.toNat <<< 8 = readSize uc.header lo := Nat.or_comm _ _
    simp only [if_pos header] at h
    cases h
    refine ⟨rfl, rfl, Nat.zero_le _, size ▸ readSize_lt _ _, ?_⟩
    rw [Uncomplete.bytes_header header, Uncomplete.bytes_of_readSize le_rfl size]
    rfl
  · have known := Int.not_lt.mp header
    simp only [if_neg header] at h
    cases h
    exact ⟨rfl, entry.read known, (entry.short known).le, entry.size known, rfl⟩

theorem Yields.of_receives {r : Filtered × Queue} {stream : List UInt8}
    (h : q.Receives q' fd [] left) (y : q'.Yields fd stream r) : q.Yields fd stream r := by
  obtain ⟨result, q''⟩ := r
  cases result with
  | none => exact ⟨y.1, h.trans y.2⟩
  | data => exact ⟨y.1, y.2.1, h.trans y.2.2⟩
  | more =>
    obtain ⟨same, msgs, parsed, receives⟩ := y
    exact ⟨same, msgs, parsed, h.trans receives⟩

/-- The pending bytes of a connection hold no complete frame. -/
theorem parse_pending (valid : q.Valid) (fd : Int32) :
    parse readSize (q.pending fd) = ([], q.pending fd) := by
  rcases findUncomplete_spec valid fd with ⟨-, none⟩ | ⟨uc, q', -, -, entry, pending, -⟩
  · rw [none, parse_nil]
  · rw [pending]
    exact entry.parse_bytes

/-- `filter_data` parses the stream of `fd` from the bytes that the queue holds of it on. -/
theorem filterData_yields (valid : q.Valid) (fd : Int32) (buffer : List UInt8) :
    q.Yields fd (q.pending fd ++ buffer) (q.filterData fd buffer) := by
  unfold filterData
  by_cases empty : buffer.length = 0
  · have parsed := parse_pending valid fd
    rw [if_pos empty, List.length_eq_zero_iff.mp empty, List.append_nil]
    refine ⟨by rw [payloads, parsed], ?_⟩
    rw [leftover, parsed]
    exact .refl valid fd
  · rw [if_neg empty]
    have nonempty : buffer ≠ [] := fun eq => empty (by rw [eq]; rfl)
    rcases findUncomplete_spec valid fd with
      ⟨found, none⟩ | ⟨uc, q', found, id, entry, pending, taken⟩
    · rw [found, none]
      exact filterFresh_yields valid none buffer
    · obtain ⟨id', read, fits, size, whole⟩ := completeHeader_spec entry nonempty rfl
      rw [found, pending, ← whole]
      exact (fill_yields taken.valid taken.pending (id'.trans id) read fits size _).of_receives taken

end Queue

end Starnet.LuaNetpack
