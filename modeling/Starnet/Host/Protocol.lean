import Mathlib.Data.Rat.Defs
import Mathlib.Logic.Function.Basic
import Starnet.Host.Library

/-! The protocol table of the host library (`starnet.lua`): `register_protocol`, `dispatch`, `send`,
`call`, and the part of `raw_dispatch_message` that looks a type up. The table refers to a class by
its name and by its id, and `dispatch` changes the class itself. Lua functions given to `dispatch`
are numbered. -/

namespace Starnet.Host

/-- A number of Lua, by its representation. Infinite floats and NaN are left out: no class is
registered with one. -/
inductive LuaNumber
  | integer (i : Int64)
  | float (x : ℚ)
  deriving DecidableEq, Repr

/-- The value that comparisons and table keys go by. -/
def LuaNumber.value : LuaNumber → ℚ
  | integer i => i.toInt
  | float x => x

/-- A class that is given to `register_protocol`. `pack` takes the message that is sent, and `none`
is nil; `dispatch` is the callback. -/
structure ProtocolClass where
  name : String
  id : Option LuaNumber
  pack : List UInt8 → Option (List UInt8)
  unpack : List UInt8 → List UInt8
  dispatch : Option Nat := none

/-- The errors of the protocol functions; `noProtocol` is the index of a nil value `p`. -/
inductive ProtocolError
  | conflictName (name : String)
  | invalidId (id : LuaNumber)
  | conflictId (id : LuaNumber)
  | dispatchUnknown (typename : String)
  | noProtocol
  | invalidAddress
  deriving DecidableEq, Repr

/-- The arguments of `send_session`. -/
structure SendArgs where
  addr : Int64
  type : Option LuaNumber
  session : Int64
  text : List UInt8
  deriving DecidableEq, Repr

/-- The table `proto` and the classes in it, in the order of their registration. -/
structure Protocols where
  classes : List ProtocolClass := []
  byName : String → Option Nat := fun _ => none
  byId : ℚ → Option Nat := fun _ => none

namespace Protocols

/-- `proto[name]`. -/
def named (p : Protocols) (name : String) : Option ProtocolClass :=
  (p.byName name).bind fun i => p.classes[i]?

/-- `proto[type]`. -/
def typed (p : Protocols) (type : UInt8) : Option ProtocolClass :=
  (p.byId type.toNat).bind fun i => p.classes[i]?

/-- `starnet.register_protocol`. -/
def registerProtocol (p : Protocols) (c : ProtocolClass) : Except ProtocolError Protocols :=
  if (p.byName c.name).isSome then .error (.conflictName c.name)
  else
    let registered := { p with
      classes := p.classes ++ [c]
      byName := Function.update p.byName c.name (some p.classes.length) }
    match c.id with
    | none => .ok registered
    | some id =>
      if ¬ (0 ≤ id.value ∧ id.value ≤ 255) then .error (.invalidId id)
      else if (p.byId id.value).isSome then .error (.conflictId id)
      else .ok { registered with byId := Function.update p.byId id.value (some p.classes.length) }

/-- `starnet.dispatch`. -/
def dispatch (p : Protocols) (typename : String) (func : Option Nat) :
    Except ProtocolError Protocols :=
  match p.byName typename with
  | none => .error (.dispatchUnknown typename)
  | some i => .ok { p with classes := p.classes.modify i fun c => { c with dispatch := func } }

/-- The arguments that `starnet.send` passes to `send_session`; an address that is not resolved
makes it return. -/
def send (p : Protocols) (addr : Option Int64) (typename : String) (text : List UInt8) :
    Except ProtocolError (Option SendArgs) :=
  match p.named typename with
  | none => .error .noProtocol
  | some c =>
    match addr with
    | none => .ok none
    | some addr => .ok (some { addr, type := c.id, session := 0, text := (c.pack text).getD [] })

/-- The arguments that `starnet.call` passes to `send_session`, with the session from `genid`. -/
def call (p : Protocols) (addr : Option Int64) (typename : String) (text : List UInt8)
    (session : Int64) : Except ProtocolError SendArgs :=
  match addr with
  | none => .error .invalidAddress
  | some addr =>
    match p.named typename with
    | none => .error .noProtocol
    | some c => .ok { addr, type := c.id, session, text := (c.pack text).getD [] }

end Protocols

/-- The session, the source and the message that a callback gets. -/
structure Request where
  session : Int64
  source : Int64
  message : List UInt8
  deriving DecidableEq, Repr

/-- The start of a callback: the protocol, the function and its arguments. -/
structure Start where
  typename : String
  callback : Nat
  request : Request
  deriving DecidableEq, Repr

/-- The callback that `raw_dispatch_message` starts, if it comes to `co_create`. -/
def Protocols.start (p : Protocols) (type : UInt8) (msg : ServiceMsg) : Option Start :=
  if type = MsgType.response ∨ type = MsgType.error then none
  else
    (p.typed type).bind fun c => c.dispatch.map fun callback =>
      ⟨c.name, callback, pushInt msg.session, pushUInt32 msg.source, c.unpack msg.buff⟩

/-- The types for which a dispatch function is registered. -/
def Protocols.serves (p : Protocols) (type : UInt8) : Bool :=
  ((p.typed type).bind (·.dispatch)).isSome

/-! ### The classes of the library -/

/-- A class with `pack_string` and `unpack_string`. -/
def stringClass (name : String) (id : Option LuaNumber) : ProtocolClass where
  name
  id
  pack msg := some msg
  unpack msg := msg

/-- The id of the protocol "lua". -/
def ptypeLua : LuaNumber := .integer 10

/-- The id of the protocol "socket". -/
def ptypeSocket : LuaNumber := .integer 6

/-- The protocol "lua" with callback `func`. -/
def luaClass (func : Option Nat) : ProtocolClass :=
  { stringClass "lua" (some ptypeLua) with dispatch := func }

/-- The classes that the library registers when it is loaded. -/
def builtins : List ProtocolClass :=
  [luaClass none, stringClass "socket" (some ptypeSocket), stringClass "accept" none,
    stringClass "close" none, stringClass "udp" none, stringClass "connect" none,
    stringClass "error" none, stringClass "warning" none]

/-- The table after the library is loaded. -/
def loaded : Except ProtocolError Protocols := builtins.foldlM Protocols.registerProtocol {}

/-- A class that `register_protocol` can put in the table of a service. -/
def Registered (c : ProtocolClass) : Prop :=
  c ∈ builtins ∨ ∃ p p', loaded = .ok p ∧ p.registerProtocol c = .ok p'

/-! ### The table -/

namespace Protocols

variable {p p' : Protocols} {c : ProtocolClass} {name : String} {func : Option Nat}

/-- The two indices agree, and the ids are in the range of a type. -/
structure WellFormed (p : Protocols) : Prop where
  named : ∀ name i, p.byName name = some i → ∃ c, p.classes[i]? = some c ∧ c.name = name ∧
    ∀ id, c.id = some id → (0 ≤ id.value ∧ id.value ≤ 255) ∧ p.byId id.value = some i

/-- The table of a service: the protocol "lua" has been registered first. -/
structure Loaded (p : Protocols) : Prop extends WellFormed p where
  luaName : p.byName "lua" = some 0
  luaId : p.byId 10 = some 0
  lua : ∃ func, p.classes[0]? = some (luaClass func)

/-- What a registration that succeeds has tested, and what it does. -/
theorem registerProtocol_ok (ok : p.registerProtocol c = .ok p') :
    p.byName c.name = none ∧ p'.classes = p.classes ++ [c] ∧
    p'.byName = Function.update p.byName c.name (some p.classes.length) ∧
    ((c.id = none ∧ p'.byId = p.byId) ∨ ∃ id, c.id = some id ∧ (0 ≤ id.value ∧ id.value ≤ 255) ∧
      p.byId id.value = none ∧
      p'.byId = Function.update p.byId id.value (some p.classes.length)) := by
  unfold registerProtocol at ok
  split at ok
  · cases ok
  next free =>
  have free : p.byName c.name = none := by simpa using free
  dsimp only at ok
  split at ok
  · next none =>
    cases ok
    exact ⟨free, rfl, rfl, .inl ⟨none, rfl⟩⟩
  · next id some =>
    split at ok
    · cases ok
    next range =>
    split at ok
    · cases ok
    next unused =>
    cases ok
    exact ⟨free, rfl, rfl, .inr ⟨id, some, not_not.mp range, by simpa using unused, rfl⟩⟩

theorem dispatch_ok (ok : p.dispatch name func = .ok p') : ∃ i, p.byName name = some i ∧
    p' = { p with classes := p.classes.modify i fun c => { c with dispatch := func } } := by
  unfold dispatch at ok
  split at ok
  · cases ok
  · next i found =>
    cases ok
    exact ⟨i, found, rfl⟩

/-- An entry of the table before a registration. -/
theorem byName_update {n : Nat} (free : p.byName c.name = none) {i : Nat}
    (found : p.byName name = some i) : Function.update p.byName c.name (some n) name = some i := by
  rw [Function.update_of_ne, found]
  rintro rfl
  rw [free] at found
  cases found

theorem byId_update {n : Nat} {id x : ℚ} (unused : p.byId id = none) {i : Nat}
    (found : p.byId x = some i) : Function.update p.byId id (some n) x = some i := by
  rw [Function.update_of_ne, found]
  rintro rfl
  rw [unused] at found
  cases found

namespace WellFormed

theorem empty : WellFormed {} := ⟨nofun⟩

theorem registerProtocol (wf : p.WellFormed) (ok : p.registerProtocol c = .ok p') :
    p'.WellFormed := by
  obtain ⟨free, classes, byName, byId⟩ := registerProtocol_ok ok
  have kept : ∀ x i, p.byId x = some i → p'.byId x = some i := by
    intro x i found
    rcases byId with ⟨-, same⟩ | ⟨id, -, -, unused, new⟩
    · rwa [same]
    · rw [new]
      exact byId_update unused found
  refine ⟨fun name i found => ?_⟩
  rw [byName] at found
  by_cases same : name = c.name
  · subst same
    rw [Function.update_self] at found
    cases found
    refine ⟨c, by simp [classes], rfl, fun id some => ?_⟩
    rcases byId with ⟨none, -⟩ | ⟨id', some', range, -, new⟩
    · rw [none] at some
      cases some
    · cases some'.symm.trans some
      exact ⟨range, by rw [new, Function.update_self]⟩
  · rw [Function.update_of_ne same] at found
    obtain ⟨c', at', name_eq, ids⟩ := wf.named name i found
    refine ⟨c', ?_, name_eq, fun id some => ⟨(ids id some).1, kept _ _ (ids id some).2⟩⟩
    rw [classes, List.getElem?_append_left (List.getElem?_eq_some_iff.mp at').1, at']

theorem dispatch (wf : p.WellFormed) (ok : p.dispatch name func = .ok p') : p'.WellFormed := by
  obtain ⟨i, -, rfl⟩ := dispatch_ok ok
  refine ⟨fun name j found => ?_⟩
  obtain ⟨c, at', name_eq, ids⟩ := wf.named name j found
  by_cases same : i = j
  · subst same
    exact ⟨{ c with dispatch := func }, by simp [at'], name_eq, ids⟩
  · exact ⟨c, by simp [same, at'], name_eq, ids⟩

end WellFormed

namespace Loaded

theorem registerProtocol (l : p.Loaded) (ok : p.registerProtocol c = .ok p') : p'.Loaded := by
  obtain ⟨free, classes, byName, byId⟩ := registerProtocol_ok ok
  refine ⟨l.toWellFormed.registerProtocol ok, ?_, ?_, ?_⟩
  · rw [byName]
    exact byName_update free l.luaName
  · rcases byId with ⟨-, same⟩ | ⟨id, -, -, unused, new⟩
    · rw [same, l.luaId]
    · rw [new]
      exact byId_update unused l.luaId
  · obtain ⟨func, first⟩ := l.lua
    exact ⟨func, by rw [classes, List.getElem?_append_left (List.getElem?_eq_some_iff.mp first).1,
      first]⟩

theorem dispatch (l : p.Loaded) (ok : p.dispatch name func = .ok p') : p'.Loaded := by
  have wf := l.toWellFormed.dispatch ok
  obtain ⟨i, -, rfl⟩ := dispatch_ok ok
  obtain ⟨func', first⟩ := l.lua
  refine ⟨wf, l.luaName, l.luaId, ?_⟩
  by_cases same : i = 0
  · exact ⟨func, by simp [same, first, luaClass]⟩
  · exact ⟨func', by simp [same, first]⟩

/-- The library registers its classes one after the other. -/
theorem foldlM {cs : List ProtocolClass} (l : p.Loaded)
    (ok : cs.foldlM Protocols.registerProtocol p = .ok p') : p'.Loaded := by
  induction cs generalizing p with
  | nil =>
    cases ok
    exact l
  | cons c cs ih =>
    rw [List.foldlM_cons] at ok
    cases first : p.registerProtocol c with
    | error e =>
      rw [first] at ok
      cases ok
    | ok p₁ =>
      rw [first] at ok
      exact ih (l.registerProtocol first) ok

theorem of_loaded (ok : loaded = .ok p) : p.Loaded := by
  rw [loaded, builtins, List.foldlM_cons] at ok
  cases first : Protocols.registerProtocol {} (luaClass none) with
  | error e =>
    rw [first] at ok
    cases ok
  | ok p₁ =>
    rw [first] at ok
    refine Loaded.foldlM ⟨WellFormed.empty.registerProtocol first, ?_, ?_, ?_⟩ ok
    · cases first
      rfl
    · cases first
      rfl
    · cases first
      exact ⟨none, rfl⟩

theorem named_lua (l : p.Loaded) : ∃ func, p.named "lua" = some (luaClass func) := by
  obtain ⟨func, first⟩ := l.lua
  exact ⟨func, by rw [named, l.luaName, Option.bind_some, first]⟩

/-- The type of a message "lua" refers to the class of that name. -/
theorem typed_lua (l : p.Loaded) : p.typed MsgType.lua = p.named "lua" := by
  have id : p.byId (MsgType.lua.toNat : ℚ) = some 0 := l.luaId
  rw [typed, named, id, l.luaName]

end Loaded

/-! ### Classes by name -/

theorem named_eq_some : p.named name = some c ↔
    ∃ i, p.byName name = some i ∧ p.classes[i]? = some c := Option.bind_eq_some_iff

/-- A class is in the table under its own name, and its id is a type. -/
theorem WellFormed.named_name (wf : p.WellFormed) (found : p.named name = some c) :
    c.name = name ∧ ∀ id, c.id = some id → 0 ≤ id.value ∧ id.value ≤ 255 := by
  obtain ⟨i, index, at'⟩ := named_eq_some.mp found
  obtain ⟨c', at'', name_eq, ids⟩ := wf.named name i index
  cases at'.symm.trans at''
  exact ⟨name_eq, fun id some => (ids id some).1⟩

/-- No other protocol has the id of "lua". -/
theorem Loaded.eq_luaClass (l : p.Loaded) (found : p.named name = some c) {id : LuaNumber}
    (some : c.id = some id) (value : id.value = 10) : name = "lua" ∧ ∃ func, c = luaClass func := by
  obtain ⟨i, index, at'⟩ := named_eq_some.mp found
  obtain ⟨c', at'', name_eq, ids⟩ := l.named name i index
  cases at'.symm.trans at''
  have zero := (ids id some).2
  rw [value, l.luaId] at zero
  cases zero
  obtain ⟨func, first⟩ := l.lua
  cases first.symm.trans at'
  exact ⟨name_eq.symm, func, rfl⟩

theorem named_registerProtocol (ok : p.registerProtocol c = .ok p') : p'.named c.name = some c := by
  obtain ⟨-, classes, byName, -⟩ := registerProtocol_ok ok
  refine named_eq_some.mpr ⟨p.classes.length, ?_, ?_⟩
  · rw [byName, Function.update_self]
  · rw [classes, List.getElem?_concat_length]

/-- A registration changes no other entry. -/
theorem named_registerProtocol_of_named {c' : ProtocolClass} (found : p.named name = some c')
    (ok : p.registerProtocol c = .ok p') : p'.named name = some c' := by
  obtain ⟨free, classes, byName, -⟩ := registerProtocol_ok ok
  obtain ⟨i, index, at'⟩ := named_eq_some.mp found
  refine named_eq_some.mpr ⟨i, ?_, ?_⟩
  · rw [byName]
    exact byName_update free index
  · rw [classes, List.getElem?_append_left (List.getElem?_eq_some_iff.mp at').1, at']

theorem exists_dispatch (found : p.named name = some c) (func : Option Nat) :
    ∃ p', p.dispatch name func = .ok p' ∧ p'.named name = some { c with dispatch := func } := by
  obtain ⟨i, index, at'⟩ := named_eq_some.mp found
  refine ⟨{ p with classes := p.classes.modify i fun c => { c with dispatch := func } }, ?_, ?_⟩
  · simp only [dispatch, index]
  · exact named_eq_some.mpr ⟨i, index, by simp [at']⟩

/-- `dispatch` changes the class of its name alone. -/
theorem WellFormed.named_dispatch_of_ne (wf : p.WellFormed) {typename : String}
    (ne : name ≠ typename) (found : p.named name = some c)
    (ok : p.dispatch typename func = .ok p') : p'.named name = some c := by
  obtain ⟨j, index', rfl⟩ := dispatch_ok ok
  obtain ⟨i, index, at'⟩ := named_eq_some.mp found
  refine named_eq_some.mpr ⟨i, index, ?_⟩
  have other : j ≠ i := by
    rintro rfl
    obtain ⟨c₁, first, rfl, -⟩ := wf.named _ _ index
    obtain ⟨c₂, second, rfl, -⟩ := wf.named _ _ index'
    cases first.symm.trans second
    exact ne rfl
  simp [other, at']

/-! ### Callbacks -/

variable {f : Nat}

theorem Loaded.start_lua (l : p.Loaded) (found : p.named "lua" = some (luaClass (some f)))
    (msg : ServiceMsg) : p.start MsgType.lua msg =
      some ⟨"lua", f, pushInt msg.session, pushUInt32 msg.source, msg.buff⟩ := by
  have handled : ¬ (MsgType.lua = MsgType.response ∨ MsgType.lua = MsgType.error) := by decide
  rw [Protocols.start, if_neg handled, l.typed_lua, found]
  rfl

theorem Loaded.serves_lua (l : p.Loaded) (found : p.named "lua" = some (luaClass (some f))) :
    p.serves MsgType.lua = true := by
  rw [serves, l.typed_lua, found]
  rfl

end Protocols

theorem exists_loaded : ∃ p, loaded = .ok p := ⟨_, rfl⟩

end Starnet.Host
