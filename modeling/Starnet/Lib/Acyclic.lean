import Mathlib.Data.Fintype.Card
import Mathlib.Data.Set.Finite.Basic

/-! Walks in a graph from one of its nodes, of which finitely many nodes are reached. They end if
and only if they come to no cycle. -/

namespace Starnet.Lib

open Relation

variable {α : Type*} {r : α → α → Prop} {a b : α}

/-- The node is accessible: every walk from it ends. -/
abbrev Ends (r : α → α → Prop) : α → Prop := Acc (Function.swap r)

theorem Ends.of_reached (ends : Ends r a) (reached : ReflTransGen r a b) : Ends r b := by
  induction reached with
  | refl => exact ends
  | tail _ edge ih => exact ih.inv edge

/-- A walk that ends does not come back. -/
theorem Ends.not_cycle (ends : Ends r a) : ¬TransGen r a a := by
  rw [← transGen_swap]
  have acc : Acc (TransGen (Function.swap r)) a := ends.transGen
  induction acc with
  | intro a _ ih => exact fun cycle => ih a cycle (ends.of_reached (transGen_swap.mp cycle).to_reflTransGen) cycle

/-- Walks from a node end when no node that is reached is on a cycle, and there are finitely many. -/
theorem ends_iff (finite : {b | ReflTransGen r a b}.Finite) :
    Ends r a ↔ ∀ b, ReflTransGen r a b → ¬TransGen r b b := by
  constructor
  · exact fun ends b reached => (ends.of_reached reached).not_cycle
  · intro acyclic
    have := finite.to_subtype
    let below (x y : {b | ReflTransGen r a b}) : Prop := TransGen r y.1 x.1
    have : IsTrans _ below := ⟨fun _ _ _ first second => second.trans first⟩
    have : Std.Irrefl below := ⟨fun x => acyclic x.1 x.2⟩
    have all : ∀ x : {b | ReflTransGen r a b}, Ends r x.1 := by
      intro x
      induction x using (Finite.wellFounded_of_trans_of_irrefl below).induction with
      | _ x ih =>
        exact ⟨_, fun y edge => ih ⟨y, x.2.tail edge⟩ (.single edge)⟩
    exact all ⟨a, .refl⟩

end Starnet.Lib
