import Starnet.Clusterd.Node

/-! The public names of a node. `register_name` and `register_addr` should be inverse to each other.
`register` takes the old name of the address out of the first table, but not the old address of the
name out of the second. -/

namespace Starnet.Clusterd

namespace Node

/-- The commands that change the names. -/
inductive NameCommand
  | register (source : UInt32) (name : List UInt8) (addr : Option (List UInt8))
  | unregister (name : List UInt8)
  deriving DecidableEq, Repr

def perform (s : Node) : NameCommand → Node
  | .register source name addr => s.register source name addr
  | .unregister name => s.unregister name

/-- `addr or source`. -/
def address (source : UInt32) (addr : Option (List UInt8)) : Handle :=
  (addr.map Handle.string).getD (.source source)

/-- The tables are inverse partial maps. -/
def Inverse (s : Node) : Prop :=
  ∀ name addr, s.registerName name = some addr ↔ s.registerAddr addr = some name

/-- The name that a command names has the binding that it asks for, and the command changes no other
binding but that of the previous name of the address. -/
def Binds (s : Node) (c : NameCommand) (s' : Node) : Prop :=
  match c with
  | .register source name addr => s'.registerName name = some (address source addr) ∧
      ∀ n, n ≠ name → s.registerName n ≠ some (address source addr) →
        s'.registerName n = s.registerName n
  | .unregister name => s'.registerName name = none ∧
      ∀ n, n ≠ name → s'.registerName n = s.registerName n

/-- Every command of the list keeps the tables inverse and binds what it should. -/
def KeepsNames (s : Node) : List NameCommand → Prop
  | [] => True
  | c :: cs => ((s.perform c).Inverse ∧ s.Binds c (s.perform c)) ∧ (s.perform c).KeepsNames cs

/-- No name is registered while it is bound to another address. -/
def Stays (s : Node) : NameCommand → Prop
  | .register source name addr =>
    ∀ addr' ∈ s.registerName name, addr' = address source addr
  | .unregister _ => True

def MovesNoName (s : Node) : List NameCommand → Prop
  | [] => True
  | c :: cs => s.Stays c ∧ (s.perform c).MovesNoName cs

/-! ### One command -/

variable {s : Node} {source : UInt32} {name : List UInt8} {addr : Option (List UInt8)}

theorem inverse_initial : initial.Inverse := by
  intro name addr
  exact ⟨nofun, nofun⟩

theorem Inverse.injective (inverse : s.Inverse) {n n' : List UInt8} {a : Handle}
    (bound : s.registerName n = some a) (bound' : s.registerName n' = some a) : n = n' :=
  Option.some.inj (((inverse n a).mp bound).symm.trans ((inverse n' a).mp bound'))

theorem registerAddr_register (a : Handle) :
    (s.register source name addr).registerAddr a =
      if a = address source addr then some name else s.registerAddr a :=
  Function.update_apply ..

/-- The binding of any name after `register`, when the tables were inverse. -/
theorem Inverse.registerName_register (inverse : s.Inverse) (n : List UInt8) :
    (s.register source name addr).registerName n =
      if n = name then some (address source addr)
      else if s.registerName n = some (address source addr) then none else s.registerName n := by
  unfold register
  by_cases same : n = name
  · rw [if_pos same, same]
    exact Function.update_self ..
  · rw [if_neg same]
    refine (Function.update_of_ne same ..).trans ?_
    -- The name that the address has had before is removed.
    cases found : s.registerAddr (address source addr) with
    | none =>
      have absent : s.registerName n ≠ some (address source addr) := fun bound => by
        cases found.symm.trans ((inverse _ _).mp bound)
      rw [address] at found
      simp only [found, if_neg absent]
    | some old =>
      have bound := (inverse _ _).mpr found
      have unique (bound' : s.registerName n = some (address source addr)) : n = old :=
        inverse.injective bound' bound
      rw [address] at found
      simp only [found]
      by_cases moved : n = old
      · rw [moved, if_pos bound]
        exact Function.update_self ..
      · rw [if_neg fun bound' => moved (unique bound')]
        exact Function.update_of_ne moved ..

theorem Inverse.binds_register (inverse : s.Inverse) :
    s.Binds (.register source name addr) (s.register source name addr) := by
  refine ⟨?_, fun n ne other => ?_⟩
  · rw [inverse.registerName_register, if_pos rfl]
  · rw [inverse.registerName_register, if_neg ne, if_neg other]

/-- A name that moves leaves its old address behind in `register_addr`. -/
theorem Inverse.register_iff (inverse : s.Inverse) :
    (s.register source name addr).Inverse ↔ s.Stays (.register source name addr) := by
  constructor
  · intro after addr' bound
    by_contra moved
    have left : (s.register source name addr).registerAddr addr' = some name := by
      rw [registerAddr_register, if_neg moved]
      exact (inverse _ _).mp bound
    have old := (after _ _).mpr left
    rw [inverse.registerName_register, if_pos rfl] at old
    exact moved (Option.some.inj old).symm
  · intro stays n a
    rw [inverse.registerName_register, registerAddr_register]
    by_cases same : n = name
    · subst same
      rw [if_pos rfl]
      by_cases own : a = address source addr
      · rw [if_pos own, own]
        exact ⟨fun _ => rfl, fun _ => rfl⟩
      · rw [if_neg own]
        refine ⟨fun bound => absurd (Option.some.inj bound).symm own, fun bound => ?_⟩
        exact absurd (stays a ((inverse _ _).mpr bound)) own
    · rw [if_neg same]
      by_cases own : a = address source addr
      · subst own
        rw [if_pos rfl]
        refine ⟨fun bound => ?_, fun bound => absurd (Option.some.inj bound).symm same⟩
        split at bound
        · cases bound
        · rename_i other
          exact absurd bound other
      · rw [if_neg own, ← inverse n a]
        split
        · rename_i bound
          rw [bound]
          exact ⟨nofun, fun eq => absurd (Option.some.inj eq).symm own⟩
        · exact Iff.rfl

theorem Inverse.unregister (inverse : s.Inverse) (name : List UInt8) :
    (s.unregister name).Inverse ∧ s.Binds (.unregister name) (s.unregister name) := by
  unfold Node.unregister Binds
  cases bound : s.registerName name with
  | none => exact ⟨inverse, bound, fun _ _ => rfl⟩
  | some addr =>
    refine ⟨fun n a => ?_, Function.update_self .., fun n ne => Function.update_of_ne ne ..⟩
    dsimp only
    rw [Function.update_apply, Function.update_apply]
    have own := inverse n a
    by_cases same : n = name
    · subst same
      rw [if_pos rfl]
      by_cases same' : a = addr
      · rw [if_pos same']
        exact ⟨nofun, nofun⟩
      · rw [if_neg same', ← own, bound]
        exact ⟨nofun, fun eq => absurd (Option.some.inj eq).symm same'⟩
    · rw [if_neg same]
      by_cases same' : a = addr
      · subst same'
        rw [if_pos rfl]
        exact ⟨fun bound' => absurd (inverse.injective bound' bound) same, nofun⟩
      · rw [if_neg same']
        exact own

theorem Inverse.perform_iff (inverse : s.Inverse) (c : NameCommand) :
    (s.perform c).Inverse ∧ s.Binds c (s.perform c) ↔ s.Stays c := by
  cases c with
  | register source name addr =>
    exact ⟨fun kept => inverse.register_iff.mp kept.1,
      fun stays => ⟨inverse.register_iff.mpr stays, inverse.binds_register⟩⟩
  | unregister name => exact iff_of_true (inverse.unregister name) trivial

/-! ### All commands -/

theorem Inverse.keeps_iff (inverse : s.Inverse) (cs : List NameCommand) :
    s.KeepsNames cs ↔ s.MovesNoName cs := by
  induction cs generalizing s with
  | nil => exact Iff.rfl
  | cons c cs ih =>
    rw [KeepsNames, MovesNoName, inverse.perform_iff]
    refine and_congr_right fun stays => ?_
    exact ih ((inverse.perform_iff c).mpr stays).1

/-- The names of a node are kept by a list of commands exactly when no name is moved to another
address. -/
theorem keepsNames_iff (cs : List NameCommand) :
    initial.KeepsNames cs ↔ initial.MovesNoName cs :=
  inverse_initial.keeps_iff cs

/-- "a" moves from service 1 to service 2 and stays the name of service 1 in `register_addr`; the next
name of service 1 takes it away from service 2. -/
theorem not_keepsNames_moved : ¬ ∀ cs, initial.KeepsNames cs := by
  intro claim
  have kept := claim [.register 1 [97] none, .register 2 [97] none]
  have moved := (inverse_initial.keeps_iff _).mp kept
  have same := moved.2.1 (.source 1) rfl
  cases same

end Node

end Starnet.Clusterd
