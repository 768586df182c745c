import Starnet.Netpack.Filter

/-! The packets that a service obtains from chunks of many connections, and packets made by `lpack`.
For every order of the chunks, the packets of a connection are the frames of its stream. -/

namespace Starnet.LuaNetpack

open Framing

namespace Queue

/-- The loop of `starnet.dispatch_socket` that calls `netpack.pop` until it returns nothing; `none`
if it does not within `fuel` rounds. -/
def popAll : Nat → Queue → Option (List (Int32 × List UInt8) × Queue)
  | 0, _ => none
  | fuel + 1, q =>
    match q.lpop with
    | none => some ([], q)
    | some (packet, q) => (popAll fuel q).map fun (packets, q) => (packet :: packets, q)

/-- The packets that a service obtains from one chunk: the one that `netpack.filter` returns and,
after "more", those that `netpack.pop` returns. -/
def feed (q : Queue) (fd : Int32) (chunk : List UInt8) :
    Option (List (Int32 × List UInt8) × Queue) :=
  match q.filterData fd chunk with
  | (.none, q) => some ([], q)
  | (.data fd msg, q) => some ([(fd, msg)], q)
  | (.more fd msg, q) => (popAll q.cap q).map fun (packets, q) => ((fd, msg) :: packets, q)

/-- The packets obtained from a sequence of chunks, each with its connection. -/
def feedAll (q : Queue) : List (Int32 × List UInt8) → Option (List (Int32 × List UInt8) × Queue)
  | [] => some ([], q)
  | (fd, chunk) :: chunks =>
    match q.feed fd chunk with
    | none => none
    | some (packets, q) => (feedAll q chunks).map fun (rest, q) => (packets ++ rest, q)

end Queue

/-- `lpack`: the length header in front of a message, or the error of `luaL_error`. -/
def lpack (msg : List UInt8) : Except String (List UInt8) :=
  if msg.length ≥ 0x10000 then
    .error s!"Invalid size (too long) of data : {(Int32.ofNat msg.length).toInt}"
  else
    .ok (UInt8.ofNat (msg.length >>> 8) :: UInt8.ofNat (msg.length &&& 0xff) :: msg)

/-- The entries of `fd` in a list of chunks or packets. -/
def ofFd (fd : Int32) (entries : List (Int32 × List UInt8)) : List (List UInt8) :=
  (entries.filter (·.1 = fd)).map Prod.snd

/-! ### Packing -/

/-- The bytes that `lpack` produces from a short message. -/
def frame (msg : List UInt8) : List UInt8 :=
  UInt8.ofNat (msg.length >>> 8) :: UInt8.ofNat msg.length :: msg

theorem lpack_eq {msg : List UInt8} (h : msg.length < 65536) : lpack msg = .ok (frame msg) := by
  have low : UInt8.ofNat (msg.length &&& 0xff) = UInt8.ofNat msg.length := by
    apply UInt8.toNat_inj.mp
    rw [UInt8.toNat_ofNat', UInt8.toNat_ofNat', show (0xff : Nat) = 2 ^ 8 - 1 from rfl,
      Nat.and_two_pow_sub_one_eq_mod]
    omega
  rw [lpack, if_neg (by omega), low]
  rfl

theorem mapM_lpack {msgs : List (List UInt8)} (h : ∀ msg ∈ msgs, msg.length < 65536) :
    msgs.mapM lpack = .ok (msgs.map frame) := by
  induction msgs with
  | nil => rfl
  | cons msg msgs ih =>
    rw [List.mapM_cons, lpack_eq (h msg (List.mem_cons_self ..)),
      ih fun msg mem => h msg (List.mem_cons_of_mem _ mem)]
    rfl

/-- The frames of short messages give back the messages. -/
theorem payloads_frames {msgs : List (List UInt8)} (h : ∀ msg ∈ msgs, msg.length < 65536) :
    payloads readSize (msgs.map frame).flatten = msgs := by
  rw [payloads, parse_flatten frame fun msg mem => ⟨_, _, rfl, readSize_bytes (h msg mem)⟩]

/-! ### Feeding -/

section

variable {fd fd' : Int32} {chunk : List UInt8} {entries : List (Int32 × List UInt8)}

theorem ofFd_cons_same : ofFd fd ((fd, chunk) :: entries) = chunk :: ofFd fd entries := by
  simp [ofFd]

theorem ofFd_cons_other (h : fd' ≠ fd) : ofFd fd ((fd', chunk) :: entries) = ofFd fd entries := by
  simp [ofFd, h]

theorem ofFd_append (more : List (Int32 × List UInt8)) :
    ofFd fd (entries ++ more) = ofFd fd entries ++ ofFd fd more := by
  simp [ofFd]

theorem ofFd_map_same (msgs : List (List UInt8)) : ofFd fd (msgs.map fun msg => (fd, msg)) = msgs := by
  induction msgs with
  | nil => rfl
  | cons msg msgs ih => rw [List.map_cons, ofFd_cons_same, ih]

theorem ofFd_map_other (h : fd' ≠ fd) (msgs : List (List UInt8)) :
    ofFd fd (msgs.map fun msg => (fd', msg)) = [] := by
  induction msgs with
  | nil => rfl
  | cons msg msgs ih => rw [List.map_cons, ofFd_cons_other h, ih]

end

namespace Queue

variable {q : Queue}

/-- Popping ends with an empty ring and returns its packets in order. -/
theorem popAll_spec (valid : q.Valid) {fuel : Nat} (h : q.packets.length < fuel) :
    ∃ q', popAll fuel q = some (q.packets, q') ∧ q'.Valid ∧ q'.packets = [] ∧ q'.hash = q.hash := by
  induction fuel generalizing q with
  | zero => omega
  | succ fuel ih =>
    have spec := lpop_spec valid.bounds
    rw [popAll]
    cases popped : q.lpop with
    | none =>
      rw [popped] at spec
      exact ⟨q, by rw [spec], valid, spec, rfl⟩
    | some result =>
      obtain ⟨packet, q'⟩ := result
      rw [popped] at spec
      obtain ⟨packets, bounds, hash, -⟩ := spec
      rw [packets, List.length_cons] at h
      obtain ⟨q'', rest, valid', empty, hash'⟩ :=
        ih ⟨bounds, by rw [hash]; exact valid.chains⟩ (Nat.lt_of_succ_lt_succ h)
      refine ⟨q'', ?_, valid', empty, hash'.trans hash⟩
      show (popAll fuel q').map _ = _
      rw [rest, packets]
      rfl

/-- One chunk gives the packets that it completes and leaves the ring empty. -/
theorem feed_spec (valid : q.Valid) (empty : q.packets = []) (fd : Int32) (chunk : List UInt8) :
    ∃ q', q.feed fd chunk = some
        ((payloads readSize (q.pending fd ++ chunk)).map fun msg => (fd, msg), q') ∧
      q'.packets = [] ∧ q.Receives q' fd [] (leftover readSize (q.pending fd ++ chunk)) := by
  have yields := filterData_yields valid fd chunk
  unfold feed
  cases filtered : q.filterData fd chunk with
  | mk result q' =>
    rw [filtered] at yields
    cases result with
    | none =>
      obtain ⟨parsed, receives⟩ := yields
      rw [parsed]
      exact ⟨q', rfl, by rw [receives.packets, empty]; rfl, receives⟩
    | data fd' msg =>
      obtain ⟨rfl, parsed, receives⟩ := yields
      rw [parsed]
      exact ⟨q', rfl, by rw [receives.packets, empty]; rfl, receives⟩
    | more fd' msg =>
      obtain ⟨rfl, msgs, parsed, receives⟩ := yields
      have inside := receives.valid.bounds
      have short : q'.packets.length < q'.cap := by
        rw [packets, List.length_map]
        exact Ring.length_content_lt _ inside.head inside.tail
      obtain ⟨q'', popped, valid', empty', hash⟩ := popAll_spec receives.valid short
      refine ⟨q'', ?_, empty', valid', by rw [empty', empty]; rfl, ?_, fun fd ne => ?_⟩
      · simp only [popped, parsed, receives.packets, empty]
        rfl
      · rw [pending, hash]
        exact receives.pending
      · rw [pending, hash]
        exact receives.others fd ne

/-- A sequence of chunks from a queue with pending bytes. -/
theorem feedAll_spec (valid : q.Valid) (empty : q.packets = [])
    (chunks : List (Int32 × List UInt8)) :
    ∃ out q', q.feedAll chunks = some (out, q') ∧
      ∀ fd, ofFd fd out = payloads readSize (q.pending fd ++ (ofFd fd chunks).flatten) := by
  induction chunks generalizing q with
  | nil =>
    refine ⟨[], q, rfl, fun fd => ?_⟩
    have parsed := parse_pending valid fd
    rw [show ofFd fd [] = [] from rfl, List.flatten_nil, List.append_nil, payloads, parsed]
  | cons entry chunks ih =>
    obtain ⟨fd, chunk⟩ := entry
    obtain ⟨q', fed, empty', receives⟩ := feed_spec valid empty fd chunk
    obtain ⟨out, q'', rest, parsed⟩ := ih receives.valid empty'
    refine ⟨_, q'', by rw [feedAll, fed]; simp only [rest]; rfl, fun fd' => ?_⟩
    rw [ofFd_append, parsed fd']
    by_cases same : fd' = fd
    · subst same
      rw [ofFd_map_same, ofFd_cons_same, List.flatten_cons, ← List.append_assoc,
        payloads_append (q.pending fd' ++ chunk), receives.pending]
    · rw [ofFd_map_other (Ne.symm same), ofFd_cons_other (Ne.symm same), receives.others fd' same]
      rfl

end Queue

/-- From a new queue every sequence of chunks is parsed to the end, and the packets of each
connection are the frames of its stream; a stream of packed messages gives the messages. -/
theorem feedAll_frames (chunks : List (Int32 × List UInt8)) :
    ∃ out q, Queue.lcreate.feedAll chunks = some (out, q) ∧ ∀ fd,
      ofFd fd out = payloads readSize (ofFd fd chunks).flatten ∧
      ∀ msgs : List (List UInt8), (∀ msg ∈ msgs, msg.length < 65536) →
        ∃ packs, msgs.mapM lpack = .ok packs ∧
          ((ofFd fd chunks).flatten = packs.flatten → ofFd fd out = msgs) := by
  obtain ⟨out, q, fed, parsed⟩ := Queue.feedAll_spec Queue.lcreate_valid rfl chunks
  refine ⟨out, q, fed, fun fd => ⟨parsed fd, fun msgs short => ?_⟩⟩
  refine ⟨_, mapM_lpack short, fun packed => ?_⟩
  rw [parsed fd, packed]
  exact payloads_frames short

/-- Two packed messages arrive on connection 7 in three chunks, with a chunk of connection 4102,
which has the same hash, in between. -/
theorem feedAll_frames_split : ∃ out q,
    Queue.lcreate.feedAll [(7, [0]), (4102, [0, 1, 9, 0]), (7, [2, 5]), (7, [6, 0, 0])] =
      some (out, q) ∧ hashFd 4102 = hashFd 7 ∧ ofFd 7 out = [[5, 6], []] ∧
      ofFd 4102 out = [[9]] := by
  have short : ∀ msg ∈ ([[5, 6], []] : List (List UInt8)), msg.length < 65536 := by decide
  obtain ⟨out, q, fed, parsed⟩ := feedAll_frames
    [(7, [0]), (4102, [0, 1, 9, 0]), (7, [2, 5]), (7, [6, 0, 0])]
  obtain ⟨packs, packed, back⟩ := (parsed 7).2 _ short
  cases packed
  refine ⟨out, q, fed, by decide, back rfl, ?_⟩
  rw [(parsed 4102).1]
  simp [ofFd, payloads, parse, readSize]

end Starnet.LuaNetpack
