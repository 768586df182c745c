import Mathlib.Data.List.AList
import Mathlib.Data.List.TakeWhile
import Starnet.Lib.Decimal
import Starnet.Seri.Value

/-! The config file: `StarnetConfig::Load` reads the table that the file returns and imports its
scalar fields, and `Starnet::Start` sets them in the environment. The conversion of a key to a
string changes the key that `lua_next` goes on from. -/

namespace Starnet.Config

open LuaSeri (Value toInteger isNaN rawget)

/-- A string of Lua or of C++. -/
abbrev Text := List UInt8

/-- The bytes of a text in ASCII. -/
def ascii (s : String) : Text := s.toList.map Char.toUInt8

/-- The C string of a text. -/
def cstring (text : Text) : Text := text.takeWhile (· ≠ 0)

/-! ### Numbers and texts -/

/-- The conversions of Lua between numbers and texts: `lua_Number2str` of a float, which gives a C
string, and `tonumber`, which reads at least the decimal integers. -/
structure Numerals where
  number2str : UInt64 → Text
  tonumber : Text → Option Value
  number2str_nonzero : ∀ bits, 0 ∉ number2str bits
  tonumber_decimal : ∀ x : Int64, tonumber (Decimal.toText x.toInt) = some (.integer x)

/-- `lua_isstring` and `lua_tolstring`. -/
def Numerals.tolstring (N : Numerals) : Value → Option Text
  | .string s => some s
  | .integer x => some (Decimal.toText x.toInt)
  | .number bits => some (N.number2str bits)
  | _ => none

/-- The value on the stack after `lua_isstring` and `lua_tolstring`, which convert it in place. -/
def Numerals.converted (N : Numerals) (v : Value) : Value :=
  match N.tolstring v with
  | some s => .string s
  | none => v

/-- `lua_tointeger` of a number. -/
def lua_tointeger : Value → Int64
  | .integer x => x
  | .number bits => (toInteger bits).getD 0
  | _ => 0

/-! ### The table -/

/-- The table that the config file returns. `slots` are the fields that `lua_next` finds, in its
order, with the removed ones, whose value is nil; `index` is what the metatable gives for a field
that is absent: a value, or an error with its message. -/
structure ConfigTable where
  slots : List (Value × Value)
  distinct : (slots.map Prod.fst).Nodup
  keys : ∀ slot ∈ slots, slot.1.isKey = true
  index : Text → Except String Value

/-- `lua_getfield`. -/
def ConfigTable.getfield (t : ConfigTable) (name : String) : Except String Value :=
  match rawget t.slots (.string (ascii name)) with
  | .nil => t.index (ascii name)
  | v => .ok v

/-- The slots behind that of a key. -/
def behind (key : Value) : List (Value × Value) → Option (List (Value × Value))
  | [] => none
  | slot :: slots => if slot.1 = key then some slots else behind key slots

/-- The first field that is present. -/
def firstField (slots : List (Value × Value)) : Option (Value × Value) :=
  slots.find? fun slot => slot.2 ≠ .nil

/-- `lua_next`. -/
def ConfigTable.next (t : ConfigTable) (key : Value) : Except String (Option (Value × Value)) :=
  if key = .nil then .ok (firstField t.slots)
  else
    match behind key t.slots with
    | some slots => .ok (firstField slots)
    | none => .error "invalid key to 'next'"

/-! ### Load -/

/-- The strings and their texts. -/
abbrev Env := AList fun _ : Text => Text

/-- `StarnetConfig`. -/
structure StarnetConfig where
  service : Text
  start : Text
  thread : Int32
  luaPath : Text
  logger : Text
  daemon : Text
  profile : Bool
  env : Env

/-- `StarnetConfig::Default`. -/
def StarnetConfig.default : StarnetConfig where
  service := ascii "../service/?/init.lua;../examples/?.lua"
  start := ascii "main"
  thread := 3
  luaPath := ascii "../lualib/?.lua"
  logger := []
  daemon := []
  profile := true
  env := ∅

/-- A string from a field, which keeps its default if the field is no string. -/
def Numerals.optstring (N : Numerals) (v : Value) (default : Text) : Text :=
  match N.tolstring v with
  | some s => cstring s
  | none => default

/-- The fields that `Load` reads one by one. -/
def ConfigTable.readFields (N : Numerals) (t : ConfigTable) (cfg : StarnetConfig) :
    Except String StarnetConfig := do
  let luaservice ← t.getfield "luaservice"
  let start ← t.getfield "start"
  let thread ← t.getfield "thread"
  let luaPath ← t.getfield "luaPath"
  let logger ← t.getfield "logger"
  let daemon ← t.getfield "daemon"
  let profile ← t.getfield "profile"
  return { cfg with
    service := N.optstring luaservice cfg.service
    start := N.optstring start cfg.start
    thread := match thread with
      | .integer x => x.toInt32
      | _ => cfg.thread
    luaPath := N.optstring luaPath cfg.luaPath
    logger := N.optstring logger cfg.logger
    daemon := N.optstring daemon cfg.daemon
    profile := match profile with
      | .boolean b => b
      | v => match N.tolstring v with
        | some s => cstring s = ascii "true"
        | none => cfg.profile }

/-- The text that a value gets in `env`; other values are ignored. -/
def valueText : Value → Option Text
  | .string s => some s
  | .boolean b => some (ascii (if b then "true" else "false"))
  | .integer x => some (Decimal.toText (lua_tointeger (.integer x)).toInt)
  | .number bits => some (Decimal.toText (lua_tointeger (.number bits)).toInt)
  | _ => none

/-- One pass of the loop over the fields. -/
def Numerals.importField (N : Numerals) (env : Env) (slot : Value × Value) : Env :=
  match N.tolstring slot.1, valueText slot.2 with
  | some k, some text => env.insert (cstring k) text
  | _, _ => env

/-- The loop over the fields, from a key on the stack. -/
def Numerals.importFields (N : Numerals) (t : ConfigTable) :
    Nat → Value → Env → Option (Except String Env)
  | 0, _, _ => none
  | fuel + 1, key, env =>
    match t.next key with
    | .error message => some (.error message)
    | .ok none => some (.ok env)
    | .ok (some slot) => N.importFields t fuel (N.converted slot.1) (N.importField env slot)

/-- `StarnetConfig::Load`. There is a table if the file is given, it can be loaded, it runs without
an error and returns a table. -/
def Numerals.load (N : Numerals) (fuel : Nat) :
    Option ConfigTable → Option (Except String StarnetConfig)
  | none => some (.ok .default)
  | some t =>
    match t.readFields N .default with
    | .error message => some (.error message)
    | .ok cfg =>
      match N.importFields t fuel .nil cfg.env with
      | none => none
      | some (.error message) => some (.error message)
      | some (.ok env) => some (.ok { cfg with env })

/-! ### The environment -/

/-- `starnet_setenv`. -/
def setenv (env : Env) (key value : Text) : Env := env.insert (cstring key) (cstring value)

/-- The environment that `Start` makes of the fields of `config.env`, in any order of the map. -/
def Started (config env : Env) : Prop :=
  ∃ entries : List (Sigma fun _ : Text => Text), entries.Perm config.entries ∧
    env = entries.foldl (fun env entry => setenv env entry.1 entry.2) ∅

/-! ### What the import is to do -/

/-- Strings, booleans and numbers. -/
def isScalar : Value → Bool
  | .string _ | .boolean _ | .integer _ | .number _ => true
  | _ => false

/-- Equal numbers, as Lua compares them. -/
def sameNumber : Value → Value → Prop
  | .integer x, .integer y => x = y
  | .integer x, .number bits => toInteger bits = some x
  | .number bits, .integer x => toInteger bits = some x
  | .number bits, .number bits' =>
    isNaN bits = false ∧ (bits = bits' ∨ toInteger bits = some 0 ∧ toInteger bits' = some 0)
  | _, _ => False

/-- The text denotes the value: the string itself, a name of the boolean, or a numeral. -/
def Numerals.Denotes (N : Numerals) (text : Text) : Value → Prop
  | .string s => text = s
  | .boolean b => text = ascii (if b then "true" else "false")
  | .integer x => ∃ n, N.tonumber text = some n ∧ sameNumber n (.integer x)
  | .number bits => ∃ n, N.tonumber text = some n ∧ sameNumber n (.number bits)
  | _ => False

/-- The environment has a text for each string key of a scalar, and none for one of a table. -/
structure Imports (N : Numerals) (t : ConfigTable) (env : Env) : Prop where
  scalar : ∀ k v, (.string k, v) ∈ t.slots → isScalar v = true →
    ∃ text, env.lookup k = some text ∧ N.Denotes text v
  table : ∀ k ref, (.string k, .table ref) ∈ t.slots → env.lookup k = none

/-- `Load` ends without an error. -/
def Loads (N : Numerals) (t : ConfigTable) (cfg : StarnetConfig) : Prop :=
  ∃ fuel, N.load fuel (some t) = some (.ok cfg)

/-! ### When it does -/

/-- The fields that `Load` reads one by one. -/
def fieldNames : List String :=
  ["luaservice", "start", "thread", "luaPath", "logger", "daemon", "profile"]

/-- The metatable gives no error for those of them that are absent. -/
def ConfigTable.Readable (t : ConfigTable) : Prop :=
  ∀ name ∈ fieldNames, rawget t.slots (.string (ascii name)) = .nil →
    ∃ v, t.index (ascii name) = .ok v

/-- The fields that a traversal visits up to its end: behind a number key it goes on behind the
string key with its text. -/
inductive Walk (N : Numerals) (t : ConfigTable) : Value → List (Value × Value) → Prop
  | done {key : Value} (last : t.next key = .ok none) : Walk N t key []
  | field {key : Value} {slot : Value × Value} {visited : List (Value × Value)}
      (next : t.next key = .ok (some slot)) (rest : Walk N t (N.converted slot.1) visited) :
      Walk N t key (slot :: visited)

def isNumber : Value → Bool
  | .integer _ | .number _ => true
  | _ => false

/-- No float but those with the value of a `lua_Integer`. -/
def Printable (v : Value) : Prop := ∀ bits, v = .number bits → (toInteger bits).isSome = true

/-- And no string with a zero byte. -/
def Unbroken (v : Value) : Prop := Printable v ∧ ∀ s, v = .string s → 0 ∉ s

/-- The visited fields keep the scalars, of which `P` tells those that have a text, and `out` is
what is left of a text. -/
structure Keeps (N : Numerals) (t : ConfigTable) (P : Value → Prop) (out : Text → Text)
    (visited : List (Value × Value)) : Prop where
  /-- The string key of a scalar is a C string. -/
  nonzero : ∀ k v, (.string k, v) ∈ t.slots → isScalar v = true → 0 ∉ k
  /-- It is visited, or a number key with its text is, whose value has a text for the scalar. -/
  scalar : ∀ k v, (.string k, v) ∈ t.slots → isScalar v = true →
    ((.string k, v) ∈ visited ∧ P v) ∨
    ∃ slot ∈ visited, isNumber slot.1 = true ∧ N.tolstring slot.1 = some k ∧
      ∃ text, valueText slot.2 = some text ∧ N.Denotes (out text) v
  /-- No scalar with a number key whose text is the string key of a table is visited. -/
  table : ∀ k ref, (.string k, .table ref) ∈ t.slots → ∀ slot ∈ visited,
    isNumber slot.1 = true → N.tolstring slot.1 = some k → isScalar slot.2 = false

variable {N : Numerals} {t : ConfigTable} {key : Value} {slot : Value × Value}
  {visited : List (Value × Value)} {env : Env} {k text : Text} {v : Value} {cfg : StarnetConfig}

/-! ### Texts -/

theorem cstring_of_nonzero (nonzero : 0 ∉ text) : cstring text = text := by
  rw [cstring, List.takeWhile_eq_self_iff]
  intro byte mem
  exact decide_eq_true fun zero => nonzero (zero ▸ mem)

theorem zero_notMem_cstring (text : Text) : 0 ∉ cstring text := by
  intro mem
  have nonzero := List.mem_takeWhile_imp (p := fun byte : UInt8 => decide (byte ≠ 0)) mem
  exact of_decide_eq_true nonzero rfl

theorem cstring_eq_self_iff : cstring text = text ↔ 0 ∉ text :=
  ⟨fun same => same ▸ zero_notMem_cstring text, cstring_of_nonzero⟩

theorem ascii_boolean_nonzero (b : Bool) : 0 ∉ ascii (if b then "true" else "false") := by
  cases b <;> decide

theorem isSome_valueText (v : Value) : (valueText v).isSome = isScalar v := by
  cases v <;> rfl

/-- The text of a number denotes it, but for floats that have no `lua_Integer`. -/
theorem denotes_lua_tointeger {bits : UInt64} :
    N.Denotes (Decimal.toText (lua_tointeger (.number bits)).toInt) (.number bits) ↔
      (toInteger bits).isSome = true := by
  rw [Numerals.Denotes, N.tonumber_decimal, lua_tointeger]
  cases value : toInteger bits with
  | none => simp [sameNumber, value]
  | some x => simp [sameNumber, value]

theorem denotes_valueText (converts : valueText v = some text) :
    N.Denotes text v ↔ Printable v := by
  cases v with
  | string s =>
    cases converts
    exact iff_of_true rfl fun bits same => by cases same
  | boolean b =>
    cases converts
    exact iff_of_true rfl fun bits same => by cases same
  | integer x =>
    cases converts
    exact iff_of_true ⟨_, N.tonumber_decimal x, rfl⟩ fun bits same => by cases same
  | number bits =>
    cases converts
    rw [denotes_lua_tointeger]
    exact ⟨fun prints _ same => by cases same; exact prints, fun prints => prints bits rfl⟩
  | _ => cases converts

theorem unbroken_iff_printable (other : ∀ s, v ≠ .string s) : Unbroken v ↔ Printable v :=
  ⟨And.left, fun prints => ⟨prints, fun s same => absurd same (other s)⟩⟩

/-- What is left of a text as a C string denotes the value if nothing is cut off. -/
theorem denotes_cstring_valueText (converts : valueText v = some text) :
    N.Denotes (cstring text) v ↔ Unbroken v := by
  cases v with
  | string s =>
    cases converts
    have prints : Printable (.string text) := fun bits same => by cases same
    refine cstring_eq_self_iff.trans ⟨fun nonzero => ⟨prints, fun _ same => ?_⟩, fun h => h.2 _ rfl⟩
    cases same
    exact nonzero
  | boolean b =>
    have nonzero : 0 ∉ text := by cases converts; exact ascii_boolean_nonzero b
    rw [cstring_of_nonzero nonzero, denotes_valueText converts,
      unbroken_iff_printable fun s same => by cases same]
  | integer x =>
    have nonzero : 0 ∉ text := by cases converts; exact Decimal.zero_notMem_toText _
    rw [cstring_of_nonzero nonzero, denotes_valueText converts,
      unbroken_iff_printable fun s same => by cases same]
  | number bits =>
    have nonzero : 0 ∉ text := by cases converts; exact Decimal.zero_notMem_toText _
    rw [cstring_of_nonzero nonzero, denotes_valueText converts,
      unbroken_iff_printable fun s same => by cases same]
  | _ => cases converts

/-- Only a string can have a text with a zero byte. -/
theorem nonzero_of_tolstring (converts : N.tolstring v = some text) (h : v ≠ .string text) :
    0 ∉ text := by
  cases v with
  | string s =>
    cases converts
    exact absurd rfl h
  | integer x =>
    cases converts
    exact Decimal.zero_notMem_toText _
  | number bits =>
    cases converts
    exact N.number2str_nonzero bits
  | _ => cases converts

theorem isNumber_of_tolstring (converts : N.tolstring v = some text) (h : v ≠ .string text) :
    isNumber v = true := by
  cases v with
  | string s =>
    cases converts
    exact absurd rfl h
  | integer | number => rfl
  | _ => cases converts

theorem converted_of_tolstring (converts : N.tolstring v = some text) :
    N.converted v = .string text := by
  rw [Numerals.converted, converts]

/-! ### The traversal -/

theorem mem_of_behind {slots rest : List (Value × Value)} (found : behind key slots = some rest)
    (mem : slot ∈ rest) : slot ∈ slots := by
  induction slots with
  | nil => cases found
  | cons head slots ih =>
    rw [behind] at found
    split at found
    · cases found
      exact List.mem_cons_of_mem head mem
    · exact List.mem_cons_of_mem head (ih found)

/-- `lua_next` gives a field of the table. -/
theorem mem_of_next (next : t.next key = .ok (some slot)) : slot ∈ t.slots := by
  unfold ConfigTable.next at next
  split at next
  · exact List.mem_of_find?_eq_some (Except.ok.inj next)
  · split at next
    · next rest found => exact mem_of_behind found (List.mem_of_find?_eq_some (Except.ok.inj next))
    · cases next

theorem Walk.mem (walk : Walk N t key visited) (mem : slot ∈ visited) : slot ∈ t.slots := by
  induction walk with
  | done => cases mem
  | field next rest ih =>
    rcases List.mem_cons.mp mem with rfl | mem
    · exact mem_of_next next
    · exact ih mem

theorem Walk.ne_error (walk : Walk N t key visited) (message : String) :
    t.next key ≠ .error message := by
  intro error
  cases walk with
  | done last => cases error.symm.trans last
  | field next => cases error.symm.trans next

theorem Walk.of_last (walk : Walk N t key visited) (last : t.next key = .ok none) :
    visited = [] := by
  cases walk with
  | done => rfl
  | field next => cases last.symm.trans next

theorem Walk.of_next (walk : Walk N t key visited) (next : t.next key = .ok (some slot)) :
    ∃ rest, visited = slot :: rest ∧ Walk N t (N.converted slot.1) rest := by
  cases walk with
  | done last => cases next.symm.trans last
  | field next' rest =>
    cases next.symm.trans next'
    exact ⟨_, rfl, rest⟩

/-- There is at most one traversal from a key. -/
theorem Walk.unique (walk : Walk N t key visited) {visited' : List (Value × Value)}
    (walk' : Walk N t key visited') : visited = visited' := by
  induction walk generalizing visited' with
  | done last => exact (walk'.of_last last).symm
  | field next rest ih =>
    obtain ⟨visited', rfl, rest'⟩ := walk'.of_next next
    rw [ih rest']

/-- A traversal goes on from each field that it visits. -/
theorem Walk.behind {before rest : List (Value × Value)}
    (walk : Walk N t key (before ++ slot :: rest)) : Walk N t (N.converted slot.1) rest := by
  induction before generalizing key with
  | nil =>
    cases walk with
    | field next rest => exact rest
  | cons head before ih =>
    cases walk with
    | field next rest => exact ih rest

/-- A traversal that ends never has a key on the stack twice. -/
theorem Walk.nodup (walk : Walk N t key visited) :
    (visited.map fun slot => N.converted slot.1).Nodup := by
  induction walk with
  | done => exact List.nodup_nil
  | @field key slot visited next rest ih =>
    rw [List.map_cons, List.nodup_cons]
    refine ⟨fun again => ?_, ih⟩
    obtain ⟨slot', mem, same⟩ := List.mem_map.mp again
    obtain ⟨before, behind, rfl⟩ := List.append_of_mem mem
    have walk' : Walk N t (N.converted slot.1) behind := same ▸ rest.behind
    -- The same key would be followed by a whole traversal and by a part of it.
    have lengths := congrArg List.length (rest.unique walk')
    rw [List.length_append, List.length_cons] at lengths
    omega

/-- The loop ends with what the visited fields import. -/
theorem importFields_eq_ok (fuel : Nat) {env' : Env} :
    N.importFields t fuel key env = some (.ok env') ↔
      ∃ visited, visited.length < fuel ∧ Walk N t key visited ∧
        env' = visited.foldl N.importField env := by
  induction fuel generalizing key env with
  | zero =>
    exact ⟨fun h => (by cases h), fun ⟨_, short, _⟩ => absurd short (Nat.not_lt_zero _)⟩
  | succ fuel ih =>
    rw [Numerals.importFields]
    cases next : t.next key with
    | error message =>
      exact ⟨fun h => (by cases h), fun ⟨_, _, walk, _⟩ => absurd next (walk.ne_error message)⟩
    | ok found =>
      cases found with
      | none =>
        refine ⟨fun h => ⟨[], Nat.succ_pos fuel, .done next, ?_⟩,
          fun ⟨visited, _, walk, same⟩ => ?_⟩
        · cases h
          rfl
        · cases walk.of_last next
          rw [same]
          rfl
      | some slot =>
        refine ih.trans ⟨fun ⟨visited, short, walk, same⟩ => ?_,
          fun ⟨visited, short, walk, same⟩ => ?_⟩
        · exact ⟨slot :: visited, Nat.succ_lt_succ short, .field next walk, same⟩
        · obtain ⟨visited, rfl, rest⟩ := walk.of_next next
          exact ⟨visited, Nat.lt_of_succ_lt_succ short, rest, same⟩

/-! ### Load -/

theorem getfield_eq_ok {name : String} : (∃ v, t.getfield name = .ok v) ↔
    (rawget t.slots (.string (ascii name)) = .nil → ∃ v, t.index (ascii name) = .ok v) := by
  unfold ConfigTable.getfield
  split
  · next absent => exact ⟨fun h _ => h, fun h => h absent⟩
  · next present => exact iff_of_true ⟨_, rfl⟩ fun absent => absurd absent present

theorem bind_isOk {α β : Type} {x : Except String α} {f : α → Except String β} :
    (∃ b, (x >>= f) = .ok b) ↔ ∃ a, x = .ok a ∧ ∃ b, f a = .ok b := by
  cases x with
  | error message => exact ⟨fun ⟨_, h⟩ => (by cases h), fun ⟨_, h, _⟩ => (by cases h)⟩
  | ok a => exact ⟨fun h => ⟨a, rfl, h⟩, fun ⟨_, same, h⟩ => (by cases same; exact h)⟩

/-- `Load` reads the fields unless the metatable gives an error. -/
theorem readFields_isOk : (∃ cfg', t.readFields N cfg = .ok cfg') ↔ t.Readable := by
  have done {α : Type} {a : α} : ∃ b, (pure a : Except String α) = .ok b := ⟨a, rfl⟩
  unfold ConfigTable.readFields ConfigTable.Readable fieldNames
  simp only [bind_isOk, done, and_true, exists_and_right, List.forall_mem_cons, List.not_mem_nil,
    false_implies, implies_true, getfield_eq_ok]

theorem ok_of_bind {α β : Type} {x : Except String α} {f : α → Except String β} {P : β → Prop}
    (ok : ∀ a b, f a = .ok b → P b) (b : β) (h : (x >>= f) = .ok b) : P b := by
  cases x with
  | error message => cases h
  | ok a => exact ok a b h

theorem env_readFields (cfg' : StarnetConfig) :
    t.readFields N cfg = .ok cfg' → cfg'.env = cfg.env := by
  unfold ConfigTable.readFields
  revert cfg'
  iterate 7 refine ok_of_bind (P := fun cfg' : StarnetConfig => cfg'.env = cfg.env) fun _ => ?_
  intro cfg' h
  cases h
  rfl

theorem load_eq_ok (fuel : Nat) : N.load fuel (some t) = some (.ok cfg) ↔
    ∃ cfg', t.readFields N .default = .ok cfg' ∧
      ∃ env, N.importFields t fuel .nil cfg'.env = some (.ok env) ∧ cfg = { cfg' with env } := by
  rw [Numerals.load]
  cases t.readFields N .default with
  | error message => exact ⟨fun h => (by cases h), fun ⟨_, h, _⟩ => (by cases h)⟩
  | ok cfg' =>
    constructor
    · intro h
      refine ⟨cfg', rfl, ?_⟩
      simp only at h
      split at h
      · cases h
      · cases h
      · next env imported =>
        cases h
        exact ⟨env, imported, rfl⟩
    · rintro ⟨_, same, env, imported, rfl⟩
      cases same
      simp only [imported]

/-- `Load` ends without an error if the fields can be read and the traversal ends. -/
theorem loads_iff : Loads N t cfg ↔
    ∃ cfg', t.readFields N .default = .ok cfg' ∧ ∃ visited, Walk N t .nil visited ∧
      cfg = { cfg' with env := visited.foldl N.importField ∅ } := by
  constructor
  · rintro ⟨fuel, h⟩
    obtain ⟨cfg', fields, env, imported, rfl⟩ := (load_eq_ok fuel).mp h
    obtain ⟨visited, -, walk, rfl⟩ := (importFields_eq_ok fuel).mp imported
    rw [env_readFields cfg' fields]
    exact ⟨cfg', fields, visited, walk, rfl⟩
  · rintro ⟨cfg', fields, visited, walk, rfl⟩
    refine ⟨visited.length + 1, (load_eq_ok _).mpr ⟨cfg', fields, _, ?_, rfl⟩⟩
    rw [env_readFields cfg' fields]
    exact (importFields_eq_ok _).mpr ⟨visited, Nat.lt_succ_self _, walk, rfl⟩

/-! ### The entries -/

/-- The strings and texts that are set one after another, for different strings. -/
theorem lookup_foldl_insert {entries : List (Sigma fun _ : Text => Text)}
    (distinct : entries.keys.Nodup) :
    (entries.foldl (fun env e => env.insert e.1 e.2) env).lookup k = some text ↔
      ⟨k, text⟩ ∈ entries ∨ k ∉ entries.keys ∧ env.lookup k = some text := by
  induction entries generalizing env with
  | nil => simp
  | cons e entries ih =>
    obtain ⟨k', text'⟩ := e
    obtain ⟨fresh, distinct⟩ := List.nodup_cons.mp distinct
    rw [List.foldl_cons, ih distinct, List.keys_cons, List.mem_cons, List.mem_cons]
    by_cases same : k = k'
    · subst same
      have absent : k ∉ entries.keys := fresh
      have absent' : (⟨k, text⟩ : Sigma fun _ : Text => Text) ∉ entries := fun mem =>
        fresh (List.mem_map.mpr ⟨_, mem, rfl⟩)
      simp [AList.lookup_insert, absent, absent', eq_comm]
    · simp [AList.lookup_insert_ne same, same]

theorem mem_foldl_insert {entries : List (Sigma fun _ : Text => Text)} :
    k ∈ entries.foldl (fun env e => env.insert e.1 e.2) env ↔ k ∈ entries.keys ∨ k ∈ env := by
  induction entries generalizing env with
  | nil => simp
  | cons e entries ih =>
    rw [List.foldl_cons, ih, AList.mem_insert, List.keys_cons, List.mem_cons, ← or_assoc,
      or_comm (a := k ∈ entries.keys)]

/-- The entry that a visited field makes. -/
def Numerals.entry (N : Numerals) (slot : Value × Value) : Option (Sigma fun _ : Text => Text) :=
  match N.tolstring slot.1, valueText slot.2 with
  | some k, some text => some ⟨cstring k, text⟩
  | _, _ => none

theorem entry_eq_some {e : Sigma fun _ : Text => Text} : N.entry slot = some e ↔
    ∃ k, N.tolstring slot.1 = some k ∧ cstring k = e.1 ∧ valueText slot.2 = some e.2 := by
  obtain ⟨k, text⟩ := e
  unfold Numerals.entry
  split
  · next k' text' name value => simp [name, value]
  · next absent =>
    exact iff_of_false (fun h => by cases h) fun ⟨k', name, _, value⟩ => absent k' text name value

theorem foldl_importField (env : Env) (visited : List (Value × Value)) :
    visited.foldl N.importField env =
      (visited.filterMap N.entry).foldl (fun env e => env.insert e.1 e.2) env := by
  induction visited generalizing env with
  | nil => rfl
  | cons slot visited ih =>
    rw [List.foldl_cons, ih]
    unfold Numerals.importField
    split
    · next k text name value =>
      have made : N.entry slot = some ⟨cstring k, text⟩ :=
        entry_eq_some.mpr ⟨k, name, rfl, value⟩
      rw [List.filterMap_cons_some made, List.foldl_cons]
    · next absent =>
      rw [List.filterMap_cons_none]
      exact Option.eq_none_iff_forall_ne_some.mpr fun e made =>
        have ⟨k, name, _, value⟩ := entry_eq_some.mp made
        absent k e.2 name value

/-- A string of `env` is a C string. -/
theorem nonzero_of_mem_env (mem : k ∈ visited.foldl N.importField ∅) : 0 ∉ k := by
  rw [foldl_importField, mem_foldl_insert] at mem
  obtain ⟨e, made, rfl⟩ := List.mem_map.mp (mem.resolve_right (AList.notMem_empty k))
  obtain ⟨slot, -, entry⟩ := List.mem_filterMap.mp made
  obtain ⟨k, -, cut, -⟩ := entry_eq_some.mp entry
  exact cut ▸ zero_notMem_cstring k

/-- The string keys of scalars are C strings. -/
def ConfigTable.NonzeroKeys (t : ConfigTable) : Prop :=
  ∀ k v, (.string k, v) ∈ t.slots → isScalar v = true → 0 ∉ k

/-- Then the strings that the visited scalars set are their keys. -/
theorem nonzero_of_entry (nonzero : t.NonzeroKeys) (mem : slot ∈ t.slots)
    (name : N.tolstring slot.1 = some k) (value : valueText slot.2 = some text) : 0 ∉ k := by
  obtain ⟨key, v⟩ := slot
  by_cases same : key = .string k
  · subst same
    exact nonzero k v mem (by rw [← isSome_valueText, value]; rfl)
  · exact nonzero_of_tolstring name same

/-- Then no two visited scalars set the same string. -/
theorem nodup_entries (nonzero : t.NonzeroKeys) (walk : Walk N t key visited) :
    (visited.filterMap N.entry).keys.Nodup := by
  have distinct := List.pairwise_map.mp walk.nodup
  refine List.pairwise_map.mpr (List.pairwise_filterMap.mpr ?_)
  refine distinct.imp_of_mem fun {slot slot'} mem mem' differ e made e' made' same => differ ?_
  obtain ⟨k, name, cut, value⟩ := entry_eq_some.mp made
  obtain ⟨k', name', cut', value'⟩ := entry_eq_some.mp made'
  rw [cstring_of_nonzero (nonzero_of_entry nonzero (walk.mem mem) name value)] at cut
  rw [cstring_of_nonzero (nonzero_of_entry nonzero (walk.mem mem') name' value')] at cut'
  rw [converted_of_tolstring name, converted_of_tolstring name', cut, cut', same]

/-- Then `env` has the texts of the visited scalars. -/
theorem lookup_env (nonzero : t.NonzeroKeys) (walk : Walk N t key visited) :
    (visited.foldl N.importField ∅).lookup k = some text ↔
      ∃ slot ∈ visited, N.tolstring slot.1 = some k ∧ valueText slot.2 = some text := by
  rw [foldl_importField, lookup_foldl_insert (nodup_entries nonzero walk), AList.lookup_empty,
    or_iff_left fun h => (by cases h.2), List.mem_filterMap]
  constructor
  · rintro ⟨slot, mem, made⟩
    obtain ⟨k', name, cut, value⟩ := entry_eq_some.mp made
    have same : k' = k :=
      (cstring_of_nonzero (nonzero_of_entry nonzero (walk.mem mem) name value)).symm.trans cut
    exact ⟨slot, mem, same ▸ name, value⟩
  · rintro ⟨slot, mem, name, value⟩
    have cut := cstring_of_nonzero (nonzero_of_entry nonzero (walk.mem mem) name value)
    exact ⟨slot, mem, entry_eq_some.mpr ⟨k, name, cut, value⟩⟩

/-- `Start` keeps the strings and what is left of their texts. -/
theorem lookup_started {config : Env} (nonzero : ∀ k ∈ config, 0 ∉ k)
    (started : Started config env) : env.lookup k = (config.lookup k).map cstring := by
  obtain ⟨entries, perm, rfl⟩ := started
  let cut (e : Sigma fun _ : Text => Text) : Sigma fun _ : Text => Text := ⟨e.1, cstring e.2⟩
  have whole : ∀ env, ∀ e ∈ entries, setenv env e.1 e.2 = env.insert (cut e).1 (cut e).2 :=
    fun env e mem => by
      have same := cstring_of_nonzero (nonzero e.1 (List.mem_map.mpr ⟨e, perm.subset mem, rfl⟩))
      rw [setenv, same]
  have keys : (entries.map cut).keys = entries.keys := by
    rw [List.keys, List.map_map]
    rfl
  have distinct : (entries.map cut).keys.Nodup :=
    keys ▸ (perm.map Sigma.fst).nodup_iff.mpr config.keys_nodup
  have sets : entries.foldl (fun env e => setenv env e.1 e.2) ∅ =
      (entries.map cut).foldl (fun env e => env.insert e.1 e.2) ∅ := by
    rw [List.foldl_map, List.foldl_ext _ _ _ whole]
  refine Option.ext fun text => ?_
  rw [sets, lookup_foldl_insert distinct, AList.lookup_empty, or_iff_left fun h => (by cases h.2),
    List.mem_map, Option.map_eq_some_iff]
  constructor
  · rintro ⟨⟨k', text'⟩, mem, same⟩
    cases same
    exact ⟨text', AList.mem_lookup_iff.mpr (perm.mem_iff.mp mem), rfl⟩
  · rintro ⟨text', found, rfl⟩
    exact ⟨⟨k, text'⟩, perm.mem_iff.mpr (AList.mem_lookup_iff.mp found), rfl⟩

/-! ### The fields that are kept -/

theorem eq_of_mem_slots {v' : Value} (mem : (key, v) ∈ t.slots) (mem' : (key, v') ∈ t.slots) :
    v = v' :=
  congrArg Prod.snd (List.inj_on_of_nodup_map t.distinct mem mem' rfl)

/-- The strings of scalars that are imported are C strings. -/
theorem Imports.nonzero {out : Text → Text} (imports : Imports N t env)
    (lookup : ∀ k, env.lookup k = ((visited.foldl N.importField ∅).lookup k).map out) :
    t.NonzeroKeys := by
  intro k v mem scalar
  obtain ⟨text, found, -⟩ := imports.scalar k v mem scalar
  rw [lookup, Option.map_eq_some_iff] at found
  obtain ⟨text', found, -⟩ := found
  exact nonzero_of_mem_env (AList.lookup_isSome.mp (by rw [found]; rfl))

section Kept

variable {P : Value → Prop} {out : Text → Text}
  (texts : ∀ v text, valueText v = some text → (N.Denotes (out text) v ↔ P v))
  (walk : Walk N t key visited)
  (lookup : ∀ k, env.lookup k = ((visited.foldl N.importField ∅).lookup k).map out)
include texts walk lookup

theorem Imports.keeps (imports : Imports N t env) : Keeps N t P out visited := by
  have nonzero := imports.nonzero lookup
  refine ⟨nonzero, fun k v mem scalar => ?_, fun k ref mem slot visits _ name => ?_⟩
  · obtain ⟨text, found, denotes⟩ := imports.scalar k v mem scalar
    rw [lookup, Option.map_eq_some_iff] at found
    obtain ⟨text', found, rfl⟩ := found
    obtain ⟨⟨key', v'⟩, visits, name, value⟩ := (lookup_env nonzero walk).mp found
    by_cases same : key' = .string k
    · subst same
      obtain rfl := eq_of_mem_slots mem (walk.mem visits)
      exact Or.inl ⟨visits, (texts v text' value).mp denotes⟩
    · exact Or.inr ⟨_, visits, isNumber_of_tolstring name same, name, text', value, denotes⟩
  · have absent := imports.table k ref mem
    rw [lookup, Option.map_eq_none_iff] at absent
    rw [← isSome_valueText]
    cases value : valueText slot.2 with
    | none => rfl
    | some text =>
      have found := (lookup_env nonzero walk).mpr ⟨slot, visits, name, value⟩
      cases absent.symm.trans found

theorem Keeps.imports (keeps : Keeps N t P out visited) : Imports N t env := by
  have nonzero : t.NonzeroKeys := keeps.nonzero
  refine ⟨fun k v mem scalar => ?_, fun k ref mem => ?_⟩
  · rcases keeps.scalar k v mem scalar with
      ⟨visits, prints⟩ | ⟨slot, visits, _, name, text, value, denotes⟩
    · obtain ⟨text, value⟩ := Option.isSome_iff_exists.mp ((isSome_valueText v).trans scalar)
      have found := (lookup_env nonzero walk).mpr ⟨_, visits, rfl, value⟩
      exact ⟨out text, by rw [lookup, found]; rfl, (texts v text value).mpr prints⟩
    · have found := (lookup_env nonzero walk).mpr ⟨slot, visits, name, value⟩
      exact ⟨out text, by rw [lookup, found]; rfl, denotes⟩
  · rw [lookup, Option.map_eq_none_iff, Option.eq_none_iff_forall_ne_some]
    intro text found
    obtain ⟨⟨key', v'⟩, visits, name, value⟩ := (lookup_env nonzero walk).mp found
    have scalar : isScalar v' = true := by rw [← isSome_valueText, value]; rfl
    by_cases same : key' = .string k
    · subst same
      obtain rfl := eq_of_mem_slots mem (walk.mem visits)
      cases scalar
    · have ignored := keeps.table k ref mem _ visits (isNumber_of_tolstring name same) name
      cases scalar.symm.trans ignored

/-- What is left of the texts of `env` is right exactly if the visited fields keep the scalars. -/
theorem imports_out_iff : Imports N t env ↔ Keeps N t P out visited :=
  ⟨fun imports => imports.keeps texts walk lookup, fun keeps => keeps.imports texts walk lookup⟩

end Kept

theorem exists_loads {Q : Env → Prop} : (∃ cfg, Loads N t cfg ∧ Q cfg.env) ↔
    t.Readable ∧ ∃ visited, Walk N t .nil visited ∧ Q (visited.foldl N.importField ∅) := by
  constructor
  · rintro ⟨cfg, loads, holds⟩
    obtain ⟨cfg', fields, visited, walk, rfl⟩ := loads_iff.mp loads
    exact ⟨readFields_isOk.mp ⟨cfg', fields⟩, visited, walk, holds⟩
  · rintro ⟨readable, visited, walk, holds⟩
    obtain ⟨cfg', fields⟩ := readFields_isOk.mpr readable
    exact ⟨_, loads_iff.mpr ⟨cfg', fields, visited, walk, rfl⟩, holds⟩

/-! ### Tables with string keys -/

/-- No string key is the text of a number key. -/
def Unspelled (N : Numerals) (t : ConfigTable) : Prop :=
  ∀ slot ∈ t.slots, isNumber slot.1 = true → ∀ k, N.tolstring slot.1 = some k →
    Value.string k ∉ t.slots.map Prod.fst

theorem behind_eq {before after : List (Value × Value)}
    (distinct : ((before ++ slot :: after).map Prod.fst).Nodup) :
    behind slot.1 (before ++ slot :: after) = some after := by
  induction before with
  | nil => rw [List.nil_append, behind, if_pos rfl]
  | cons head before ih =>
    obtain ⟨fresh, distinct⟩ := List.nodup_cons.mp distinct
    have other : head.1 ≠ slot.1 := fun same =>
      fresh (List.mem_map.mpr ⟨slot, by simp, same.symm⟩)
    rw [List.cons_append, behind, if_neg other, ih distinct]

theorem behind_eq_none {slots : List (Value × Value)} (absent : key ∉ slots.map Prod.fst) :
    behind key slots = none := by
  induction slots with
  | nil => rfl
  | cons head slots ih =>
    obtain ⟨other, absent⟩ := not_or.mp (mt List.mem_cons.mpr absent)
    rw [behind, if_neg fun same => other same.symm, ih absent]

theorem next_behind {before after : List (Value × Value)}
    (slots : t.slots = before ++ slot :: after) : t.next slot.1 = .ok (firstField after) := by
  have present : slot.1 ≠ .nil := fun absent => by
    have isKey := t.keys slot (by rw [slots]; simp)
    rw [absent] at isKey
    cases isKey
  rw [ConfigTable.next, if_neg present, slots, behind_eq (slots ▸ t.distinct)]

theorem converted_of_isNumber (other : isNumber v = false) : N.converted v = v := by
  cases v with
  | integer | number => cases other
  | _ => rfl

/-- Without number keys, a traversal visits all that is left. -/
theorem walk_of_strings (before : List (Value × Value)) {after : List (Value × Value)}
    (slots : t.slots = before ++ after) (next : t.next key = .ok (firstField after))
    (others : ∀ slot ∈ after, isNumber slot.1 = true → slot.2 = .nil) :
    Walk N t key (after.filter fun slot => slot.2 ≠ .nil) := by
  induction after generalizing before key with
  | nil => exact .done next
  | cons slot after ih =>
    have slots' : t.slots = (before ++ [slot]) ++ after := by rw [slots, List.append_assoc]; rfl
    have others' : ∀ slot ∈ after, isNumber slot.1 = true → slot.2 = .nil := fun slot mem =>
      others slot (List.mem_cons_of_mem _ mem)
    by_cases absent : slot.2 = .nil
    · rw [List.filter_cons_of_neg (by simpa using absent)]
      refine ih _ slots' ?_ others'
      rw [next, firstField, List.find?_cons_of_neg (by simpa using absent), firstField]
    · have other : isNumber slot.1 = false :=
        Bool.eq_false_iff.mpr fun number => absent (others slot List.mem_cons_self number)
      have here : t.next key = .ok (some slot) := by
        rw [next, firstField, List.find?_cons_of_pos (by simpa using absent)]
      rw [List.filter_cons_of_pos (by simpa using absent)]
      refine .field here ?_
      rw [converted_of_isNumber other]
      exact ih _ slots' (next_behind slots) others'

/-- A traversal that ends visits no number key that no string key spells. -/
theorem Walk.no_number (unspelled : Unspelled N t) (walk : Walk N t key visited)
    (before : List (Value × Value)) {after : List (Value × Value)}
    (slots : t.slots = before ++ after) (next : t.next key = .ok (firstField after)) :
    ∀ slot ∈ after, isNumber slot.1 = true → slot.2 = .nil := by
  induction after generalizing before key visited with
  | nil => exact List.forall_mem_nil _
  | cons slot after ih =>
    have slots' : t.slots = (before ++ [slot]) ++ after := by rw [slots, List.append_assoc]; rfl
    have mem : slot ∈ t.slots := by rw [slots]; simp
    by_cases absent : slot.2 = .nil
    · rw [firstField, List.find?_cons_of_neg (by simpa using absent)] at next
      exact List.forall_mem_cons.mpr ⟨fun _ => absent, ih walk _ slots' next⟩
    · rw [firstField, List.find?_cons_of_pos (by simpa using absent)] at next
      obtain ⟨visited, rfl, rest⟩ := walk.of_next next
      have other : isNumber slot.1 = false := by
        refine Bool.eq_false_iff.mpr fun number => ?_
        have lost (k : Text) (name : N.tolstring slot.1 = some k) : False := by
          have error : t.next (.string k) = .error "invalid key to 'next'" := by
            rw [ConfigTable.next, if_neg fun h => (by cases h),
              behind_eq_none (unspelled slot mem number k name)]
          rw [converted_of_tolstring name] at rest
          exact rest.ne_error _ error
        cases key : slot.1 with
        | integer x => exact lost _ (by rw [key]; rfl)
        | number bits => exact lost _ (by rw [key]; rfl)
        | _ => rw [key] at number; cases number
      rw [converted_of_isNumber other] at rest
      refine List.forall_mem_cons.mpr ⟨fun number => ?_, ih rest _ slots' (next_behind slots)⟩
      rw [other] at number
      cases number

/-- If no string key is the text of a number key, all is imported exactly if the fields can be read,
no field has a number key, and each scalar has a C string as its key and prints. -/
theorem imports_iff_of_unspelled (unspelled : Unspelled N t) :
    (∃ cfg, Loads N t cfg ∧ Imports N t cfg.env) ↔
      t.Readable ∧ (∀ slot ∈ t.slots, isNumber slot.1 = true → slot.2 = .nil) ∧
        ∀ k v, (.string k, v) ∈ t.slots → isScalar v = true → 0 ∉ k ∧ Printable v := by
  have texts : ∀ v text, valueText v = some text → (N.Denotes (id text) v ↔ Printable v) :=
    fun v text => denotes_valueText
  have same (visited : List (Value × Value)) (k : Text) :
      (visited.foldl N.importField ∅).lookup k =
        ((visited.foldl N.importField ∅).lookup k).map id := by
    rw [Option.map_id, id]
  have first : t.next .nil = .ok (firstField t.slots) := rfl
  constructor
  · intro loads
    obtain ⟨readable, visited, walk, imports⟩ := exists_loads.mp loads
    have keeps := (imports_out_iff texts walk (same visited)).mp imports
    refine ⟨readable, walk.no_number unspelled [] rfl first, fun k v mem scalar => ?_⟩
    refine ⟨keeps.nonzero k v mem scalar, ?_⟩
    rcases keeps.scalar k v mem scalar with ⟨_, prints⟩ | ⟨slot, visits, number, name, _⟩
    · exact prints
    · exact absurd (List.mem_map.mpr ⟨_, mem, rfl⟩)
        (unspelled slot (walk.mem visits) number k name)
  · rintro ⟨readable, others, keys⟩
    have walk : Walk N t .nil _ := walk_of_strings [] rfl first others
    refine exists_loads.mpr ⟨readable, _, walk, (imports_out_iff texts walk (same _)).mpr ?_⟩
    refine ⟨fun k v mem scalar => (keys k v mem scalar).1, fun k v mem scalar => Or.inl ?_, ?_⟩
    · refine ⟨List.mem_filter.mpr ⟨mem, decide_eq_true fun absent => ?_⟩, (keys k v mem scalar).2⟩
      rw [show v = .nil from absent] at scalar
      cases scalar
    · intro k ref _ slot visits number _
      rw [others slot (walk.mem visits) number]
      rfl

/-! ### Any table -/

/-- `Load` ends and imports each scalar with its text exactly if the fields can be read and a
traversal ends whose visited fields keep the scalars. The same holds for the environment after
`Start`, which has no string with a zero byte. -/
theorem imports_iff (N : Numerals) (t : ConfigTable) :
    ((∃ cfg, Loads N t cfg ∧ Imports N t cfg.env) ↔
      t.Readable ∧ ∃ visited, Walk N t .nil visited ∧ Keeps N t Printable id visited) ∧
    ((∃ cfg, Loads N t cfg ∧ ∀ env, Started cfg.env env → Imports N t env) ↔
      t.Readable ∧ ∃ visited, Walk N t .nil visited ∧ Keeps N t Unbroken cstring visited) := by
  constructor
  · refine exists_loads.trans (and_congr_right fun _ => exists_congr fun visited =>
      and_congr_right fun walk => ?_)
    refine imports_out_iff (fun v text => denotes_valueText) walk fun k => ?_
    rw [Option.map_id, id]
  · refine exists_loads (Q := fun config => ∀ env, Started config env → Imports N t env) |>.trans
      (and_congr_right fun _ => exists_congr fun visited => and_congr_right fun walk => ?_)
    have started {env : Env} (h : Started (visited.foldl N.importField ∅) env) :=
      imports_out_iff (N := N) (fun v text => denotes_cstring_valueText) walk fun k =>
        lookup_started (k := k) (fun k => nonzero_of_mem_env) h
    exact ⟨fun imports => (started ⟨_, .rfl, rfl⟩).mp (imports _ ⟨_, .rfl, rfl⟩),
      fun keeps env h => (started h).mpr keeps⟩

/-- A `tonumber` for the decimal integers, and a text for the infinite floats. -/
def Numerals.decimal : Numerals where
  number2str _ := ascii "inf"
  tonumber text := do
    let x ← Decimal.ofText text
    if (Int64.ofInt x).toInt = x then some (.integer (Int64.ofInt x)) else none
  number2str_nonzero _ := by decide
  tonumber_decimal x := by simp [Decimal.ofText_toText]

/-- `return { "x", ["1"] = "x", start = "main" }`. -/
def spelledTable : ConfigTable where
  slots := [(.integer 1, .string (ascii "x")), (.string (ascii "1"), .string (ascii "x")),
    (.string (ascii "start"), .string (ascii "main"))]
  distinct := by decide
  keys := by decide
  index _ := .ok .nil

theorem mem_spelledTable (mem : (.string k, v) ∈ spelledTable.slots) :
    k = ascii "1" ∧ v = .string (ascii "x") ∨ k = ascii "start" ∧ v = .string (ascii "main") := by
  simpa [spelledTable] using mem

/-- The key 1 becomes "1", behind which the traversal goes on. -/
theorem imports_iff_spelled : ∃ cfg, Loads .decimal spelledTable cfg ∧
    ∀ env, Started cfg.env env → Imports .decimal spelledTable env := by
  refine (imports_iff .decimal spelledTable).2.mpr ⟨fun _ _ _ => ⟨.nil, rfl⟩,
    [(.integer 1, .string (ascii "x")), (.string (ascii "start"), .string (ascii "main"))],
    .field rfl (.field rfl (.done rfl)), fun k v mem _ => ?_, fun k v mem _ => ?_,
    fun k ref mem => ?_⟩
  · rcases mem_spelledTable mem with ⟨rfl, -⟩ | ⟨rfl, -⟩ <;> decide
  · rcases mem_spelledTable mem with ⟨rfl, rfl⟩ | ⟨rfl, rfl⟩
    · exact Or.inr ⟨_, List.mem_cons_self, rfl, rfl, ascii "x", rfl, cstring_of_nonzero (by decide)⟩
    · refine Or.inl ⟨List.mem_cons_of_mem _ List.mem_cons_self, fun bits same => ?_, ?_⟩
      · cases same
      · intro s same
        cases same
        decide
  · rcases mem_spelledTable mem with ⟨-, same⟩ | ⟨-, same⟩ <;> cases same

/-- `return { 10, start = "main" }`. -/
def numberedTable : ConfigTable where
  slots := [(.integer 1, .integer 10), (.string (ascii "start"), .string (ascii "main"))]
  distinct := by decide
  keys := by decide
  index _ := .ok .nil

/-- The key 1 becomes "1", which `lua_next` does not find. -/
theorem not_imports_numbered : ¬∃ cfg, Loads .decimal numberedTable cfg ∧
    Imports .decimal numberedTable cfg.env := by
  rintro ⟨cfg, loads, -⟩
  obtain ⟨cfg', -, visited, walk, -⟩ := loads_iff.mp loads
  have first : numberedTable.next .nil = .ok (some (.integer 1, .integer 10)) := rfl
  have error : numberedTable.next (Numerals.decimal.converted (.integer 1)) =
    .error "invalid key to 'next'" := rfl
  obtain ⟨rest, -, walk⟩ := walk.of_next first
  exact walk.ne_error _ error

end Starnet.Config
