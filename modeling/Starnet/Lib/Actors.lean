import Starnet.Lib.Refinement

/-! Actors. Each has a mailbox and serves the messages of its mailbox one at a time, in order, until
it leaves; then it drops the messages that are left. -/

namespace Actors

open Transition

variable {α μ : Type*}

/-- What an actor does now. -/
inductive Phase (μ : Type*)
  | idle
  | serving (msg : μ)
  | leaving
  | gone
  deriving DecidableEq, Repr

structure Actor (μ : Type*) where
  mailbox : List μ
  phase : Phase μ
  deriving DecidableEq, Repr

/-- What a step shows: a message is put in a mailbox, a message is served, an actor leaves, a
message is dropped, or an actor is gone. -/
inductive Label (α μ : Type*)
  | push (a : α) (msg : μ)
  | serve (a : α) (msg : μ)
  | exit (a : α)
  | drop (a : α) (msg : μ)
  | clear (a : α)
  deriving DecidableEq, Repr

/-- The actor that a label is about. -/
def Label.actor : Label α μ → α
  | push a _ | serve a _ | exit a | drop a _ | clear a => a

/-- The actor itself does the step. -/
def Label.own : Label α μ → Bool
  | push .. => false
  | _ => true

variable [DecidableEq α]

/-- The steps of one actor. That a message has been served is not shown. -/
inductive Moves (a : α) : Actor μ → Option (Label α μ) → Actor μ → Prop
  | push (actor : Actor μ) (msg : μ) :
      Moves a actor (some (.push a msg)) { actor with mailbox := actor.mailbox ++ [msg] }
  | serve (msg : μ) (rest : List μ) :
      Moves a ⟨msg :: rest, .idle⟩ (some (.serve a msg)) ⟨rest, .serving msg⟩
  | done (msg : μ) (mailbox : List μ) : Moves a ⟨mailbox, .serving msg⟩ none ⟨mailbox, .idle⟩
  | exit (mailbox : List μ) : Moves a ⟨mailbox, .idle⟩ (some (.exit a)) ⟨mailbox, .leaving⟩
  | drop (msg : μ) (rest : List μ) :
      Moves a ⟨msg :: rest, .leaving⟩ (some (.drop a msg)) ⟨rest, .leaving⟩
  | clear : Moves a ⟨[], .leaving⟩ (some (.clear a)) ⟨[], .gone⟩

/-- One actor moves. -/
def Step (s : α → Actor μ) (label : Option (Label α μ)) (s' : α → Actor μ) : Prop :=
  ∃ a actor, Moves a (s a) label actor ∧ s' = Function.update s a actor

/-- Actors with empty mailboxes. -/
def actors (α μ : Type*) [DecidableEq α] : System (α → Actor μ) (Option (Label α μ)) where
  init s := s = fun _ => ⟨[], .idle⟩
  step := Step

/-! ### The life of an actor -/

/-- The messages that were put in the mailbox of an actor. -/
def pushed (a : α) (labels : List (Label α μ)) : List μ :=
  labels.filterMap fun
    | .push a' msg => if a' = a then some msg else none
    | _ => none

/-- What an actor itself did. -/
def doings (a : α) (labels : List (Label α μ)) : List (Label α μ) :=
  labels.filter fun label => label.own && label.actor = a

/-- What an actor in a phase has done since it served its last message. -/
def ending (a : α) (dropped : List μ) : Phase μ → List (Label α μ)
  | .idle | .serving _ => []
  | .leaving => .exit a :: dropped.map (Label.drop a)
  | .gone => .exit a :: dropped.map (Label.drop a) ++ [.clear a]

/-- An actor served the first messages pushed to it, in order. Once it has left, it dropped the next
ones, in order, and did nothing else; the others are in its mailbox. -/
structure Life (a : α) (actor : Actor μ) (labels : List (Label α μ)) (served dropped : List μ) :
    Prop where
  mail : served ++ dropped ++ actor.mailbox = pushed a labels
  doings : doings a labels = served.map (Label.serve a) ++ ending a dropped actor.phase
  early : ending a dropped actor.phase = [] → dropped = []
  current : ∀ msg, actor.phase = .serving msg → served.getLast? = some msg

namespace Life

variable {a : α} {actor actor' : Actor μ} {label : Option (Label α μ)} {labels : List (Label α μ)}
  {served dropped : List μ}

theorem initial (a : α) : Life a (⟨[], .idle⟩ : Actor μ) [] [] [] := by
  constructor
  · rfl
  · rfl
  · exact fun _ => rfl
  · rintro msg ⟨⟩

/-- A step of another actor. -/
theorem keep (life : Life a actor labels served dropped) {b : α} (ne : b ≠ a)
    {moved moved' : Actor μ} (moves : Moves b moved label moved') :
    Life a actor (labels ++ label.toList) served dropped := by
  have quiet : pushed a label.toList = [] ∧ Actors.doings a label.toList = [] := by
    cases moves <;> simp [pushed, Actors.doings, Label.own, Label.actor, ne]
  refine ⟨?_, ?_, life.early, life.current⟩
  · rw [pushed, List.filterMap_append, ← pushed, ← pushed, quiet.1, List.append_nil, life.mail]
  · rw [Actors.doings, List.filter_append, ← Actors.doings, ← Actors.doings, quiet.2,
      List.append_nil, life.doings]

/-- A step of the actor. -/
theorem move (life : Life a actor labels served dropped) (moves : Moves a actor label actor') :
    ∃ served' dropped', Life a actor' (labels ++ label.toList) served' dropped' := by
  have mail := life.mail
  have doings := life.doings
  have pushes : ∀ l, pushed a (labels ++ l) = pushed a labels ++ pushed a l := fun l =>
    List.filterMap_append
  have does : ∀ l, Actors.doings a (labels ++ l) = Actors.doings a labels ++ Actors.doings a l :=
    fun l => List.filter_append _ _
  cases moves with
  | push msg =>
    refine ⟨served, dropped, ?_, ?_, life.early, life.current⟩
    · rw [pushes, ← mail, List.append_assoc _ actor.mailbox]
      simp [pushed]
    · rw [does, doings]
      exact List.append_nil _
  | serve msg rest =>
    cases life.early rfl
    refine ⟨served ++ [msg], [], ?_, ?_, fun _ => rfl, ?_⟩
    · rw [pushes, ← mail]
      simp [pushed]
    · rw [does, doings]
      simp [Actors.doings, ending, Label.own, Label.actor]
    · rintro msg ⟨⟩
      exact List.getLast?_concat
  | done msg mailbox =>
    refine ⟨served, dropped, ?_, ?_, life.early, by rintro msg ⟨⟩⟩
    · rw [pushes, ← mail]
      exact (List.append_nil _).symm
    · rw [does, doings]
      exact List.append_nil _
  | exit mailbox =>
    cases life.early rfl
    refine ⟨served, [], ?_, ?_, fun _ => rfl, by rintro msg ⟨⟩⟩
    · rw [pushes, ← mail]
      exact (List.append_nil _).symm
    · rw [does, doings]
      simp [Actors.doings, ending, Label.own, Label.actor]
  | drop msg rest =>
    refine ⟨served, dropped ++ [msg], ?_, ?_, by rintro ⟨⟩, by rintro msg ⟨⟩⟩
    · rw [pushes, ← mail]
      simp [pushed]
    · rw [does, doings]
      simp [Actors.doings, ending, Label.own, Label.actor]
  | clear =>
    refine ⟨served, dropped, ?_, ?_, ?_, by rintro msg ⟨⟩⟩
    · rw [pushes, ← mail]
      exact (List.append_nil _).symm
    · rw [does, doings]
      simp [Actors.doings, ending, Label.own, Label.actor]
    · exact fun h => absurd h (List.append_ne_nil_of_right_ne_nil _ (List.cons_ne_nil _ _))

end Life

/-- Every actor lives like this in every run. -/
theorem lives {s : α → Actor μ} {labels : List (Option (Label α μ))}
    (run : (actors α μ).Run s labels) (a : α) :
    ∃ served dropped, Life a (s a) labels.reduceOption served dropped := by
  refine run.invariant (P := fun s labels =>
    ∃ served dropped, Life a (s a) labels.reduceOption served dropped) ?_ ?_
  · rintro _ rfl
    exact ⟨[], [], .initial a⟩
  · rintro s labels label s' - ⟨served, dropped, life⟩ ⟨b, actor, moves, rfl⟩
    have shown : [label].reduceOption = label.toList := by cases label <;> rfl
    rw [List.reduceOption_append, shown]
    by_cases same : b = a
    · subst same
      rw [Function.update_self]
      exact life.move moves
    · rw [Function.update_of_ne (Ne.symm same)]
      exact ⟨served, dropped, life.keep same moves⟩

end Actors
