import Attest.Library.Process
import Mathlib.Logic.Function.Basic

/-! Processes that share a world and take turns.

Any number of processes work on one world without a lock: each move lets one of them make
its next call, or shows the world while its call is under way, or starts it on something
new, whatever it was doing. A process that dies is one that never moves again.
`always_iff` says when a property of the world holds in every state of such a run: where
the calls keep it once they are done, it comes down to the calls that were seen under
way. -/
namespace Attest.Library

namespace Process
variable {E : Type} {R : E → Type} {W α β : Type}

/-- A process alone in a world that replies. -/
def run (perform : W → (e : E) → R e × W) : Process E R α → W → α × W
  | .done a, w => (a, w)
  | .call e after, w => run perform (after (perform w e).1) (perform w e).2

theorem run_bind {perform : W → (e : E) → R e × W} (p : Process E R α) (f : α → Process E R β)
    (w : W) : (p >>= f).run perform w = (f (p.run perform w).1).run perform (p.run perform w).2 := by
  induction p generalizing w with
  | done a => rfl
  | call e after ih => exact ih _ _

/-- Whatever the replies are, each call is one of these. -/
def Calls (ok : E → Prop) : Process E R α → Prop
  | .done _ => True
  | .call e after => ok e ∧ ∀ r, (after r).Calls ok

variable {ok : E → Prop}

theorem calls_bind {p : Process E R α} {f : α → Process E R β} (hp : p.Calls ok)
    (hf : ∀ a, (f a).Calls ok) : (p >>= f).Calls ok := by
  induction p with
  | done a => exact hf a
  | call e after ih =>
    obtain ⟨he, hafter⟩ := hp
    exact ⟨he, fun r => ih r (hafter r)⟩

theorem calls_ask {e : E} (h : ok e) : (ask e : Process E R (R e)).Calls ok :=
  ⟨h, fun _ => trivial⟩

end Process

variable {ι J E : Type} {R : E → Type} {W α : Type}

/-- The processes and the world they share. -/
structure Pool (ι E : Type) (R : E → Type) (W α : Type) where
  parties : ι → Process E R α
  world : W

inductive Move (ι J : Type)
  | start (i : ι) (job : J)
  | act (i : ι)
  | underway (i : ι) (amount : Nat)

namespace Pool
variable [DecidableEq ι]

section Turn
variable (perform : W → (e : E) → R e × W)

/-- One of them makes its next call, if there is one. -/
def turn (pool : Pool ι E R W α) (i : ι) : Pool ι E R W α :=
  match pool.parties i with
  | .done _ => pool
  | .call e after =>
    { parties := Function.update pool.parties i (after (perform pool.world e).1)
      world := (perform pool.world e).2 }

theorem turn_of_done {pool : Pool ι E R W α} {i : ι} {a : α} (h : pool.parties i = .done a) :
    pool.turn perform i = pool := by
  unfold turn
  rw [h]

theorem turn_of_call {pool : Pool ι E R W α} {i : ι} {e : E} {after : R e → Process E R α}
    (h : pool.parties i = .call e after) :
    pool.turn perform i =
      ⟨Function.update pool.parties i (after (perform pool.world e).1), (perform pool.world e).2⟩ := by
  unfold turn
  rw [h]

/-- Turn after turn. -/
def turns (pool : Pool ι E R W α) (order : List ι) : Pool ι E R W α :=
  order.foldl (turn perform) pool

end Turn

variable (perform : W → (e : E) → R e × W) (partly : W → E → Nat → W)
  (program : J → Process E R α)

def move (pool : Pool ι E R W α) : Move ι J → Pool ι E R W α
  | .start i job => { pool with parties := Function.update pool.parties i (program job) }
  | .act i => pool.turn perform i
  | .underway i amount =>
    match pool.parties i with
    | .done _ => pool
    | .call e _ => { pool with world := partly pool.world e amount }

/-- The call a move shows under way, and how far it has come. -/
def cutOf (pool : Pool ι E R W α) : Move ι J → Option (E × Nat)
  | .underway i amount =>
    match pool.parties i with
    | .done _ => none
    | .call e _ => some (e, amount)
  | _ => none

/-- The states of a run, the first and the last included. -/
def states (pool : Pool ι E R W α) : List (Move ι J) → List (Pool ι E R W α)
  | [] => [pool]
  | m :: rest => pool :: (pool.move perform partly program m).states rest

/-- The calls that a run shows under way. -/
def cuts (pool : Pool ι E R W α) : List (Move ι J) → List (E × Nat)
  | [] => []
  | m :: rest => (pool.cutOf m).toList ++ (pool.move perform partly program m).cuts rest

section Always
variable {perform : W → (e : E) → R e × W} {partly : W → E → Nat → W}
  {program : J → Process E R α} {I : W → Prop} {ok : E → Prop} {fine : E → Nat → Prop}

theorem calls_update {parties : ι → Process E R α} {i : ι} {p : Process E R α}
    (hparties : ∀ j, (parties j).Calls ok) (hp : p.Calls ok) :
    ∀ j, (Function.update parties i p j).Calls ok := by
  intro j
  by_cases hj : j = i
  · rw [hj, Function.update_self]
    exact hp
  · rw [Function.update_of_ne hj]
    exact hparties j

theorem calls_turn {pool : Pool ι E R W α} {i : ι}
    (hparties : ∀ j, (pool.parties j).Calls ok) :
    ∀ j, ((pool.turn perform i).parties j).Calls ok := by
  have hi := hparties i
  unfold turn
  split
  next => exact hparties
  next e after h =>
    rw [h] at hi
    exact calls_update hparties (hi.2 _)

theorem turn_keeps {pool : Pool ι E R W α} {i : ι} (hperform : ∀ w e, ok e → I w → I (perform w e).2)
    (hparties : ∀ j, (pool.parties j).Calls ok) (hI : I pool.world) :
    I (pool.turn perform i).world := by
  have hi := hparties i
  unfold turn
  split
  next => exact hI
  next e after h =>
    rw [h] at hi
    exact hperform _ _ hi.1 hI

theorem turns_keep {pool : Pool ι E R W α} (order : List ι)
    (hperform : ∀ w e, ok e → I w → I (perform w e).2)
    (hparties : ∀ j, (pool.parties j).Calls ok) (hI : I pool.world) :
    I (pool.turns perform order).world := by
  induction order generalizing pool with
  | nil => exact hI
  | cons i rest ih => exact ih (calls_turn hparties) (turn_keeps hperform hparties hI)

theorem calls_move {pool : Pool ι E R W α} (m : Move ι J) (hprogram : ∀ job, (program job).Calls ok)
    (hparties : ∀ j, (pool.parties j).Calls ok) :
    ∀ j, ((pool.move perform partly program m).parties j).Calls ok := by
  cases m with
  | start i job => exact calls_update hparties (hprogram job)
  | act i => exact calls_turn hparties
  | underway i amount =>
    unfold move
    dsimp only
    split <;> exact hparties

theorem iff_of_no_cut {P : Prop} (hP : P) :
    P ↔ ∀ cut ∈ (none : Option (E × Nat)), fine cut.1 cut.2 :=
  iff_of_true hP fun _ h => absurd h (Option.not_mem_none _)

/-- A move keeps the property exactly where what it shows under way is fine. -/
theorem move_iff {pool : Pool ι E R W α} (m : Move ι J)
    (hperform : ∀ w e, ok e → I w → I (perform w e).2)
    (hpartly : ∀ w e amount, ok e → I w → (I (partly w e amount) ↔ fine e amount))
    (hparties : ∀ j, (pool.parties j).Calls ok) (hI : I pool.world) :
    I (pool.move perform partly program m).world ↔ ∀ cut ∈ pool.cutOf m, fine cut.1 cut.2 := by
  cases m with
  | start i job => exact iff_of_no_cut hI
  | act i =>
    apply iff_of_no_cut
    exact turn_keeps hperform hparties hI
  | underway i amount =>
    have hi := hparties i
    unfold move cutOf
    dsimp only
    split
    next => exact iff_of_no_cut hI
    next e after h =>
      rw [h] at hi
      rw [hpartly _ _ _ hi.1 hI]
      constructor
      · intro hfine cut hcut
        cases hcut
        exact hfine
      · intro hall
        exact hall (e, amount) rfl

/-- Along a run of processes whose calls keep a property, it holds in every state exactly
where every call that is seen under way is fine. -/
theorem always_iff {pool : Pool ι E R W α} {moves : List (Move ι J)}
    (hperform : ∀ w e, ok e → I w → I (perform w e).2)
    (hpartly : ∀ w e amount, ok e → I w → (I (partly w e amount) ↔ fine e amount))
    (hprogram : ∀ job, (program job).Calls ok) (hparties : ∀ j, (pool.parties j).Calls ok)
    (hI : I pool.world) :
    (∀ s ∈ pool.states perform partly program moves, I s.world) ↔
      ∀ cut ∈ pool.cuts perform partly program moves, fine cut.1 cut.2 := by
  induction moves generalizing pool with
  | nil => simp [states, cuts, hI]
  | cons m rest ih =>
    have hmove : I (pool.move perform partly program m).world ↔ _ :=
      move_iff m hperform hpartly hparties hI
    have hcalls : ∀ j, ((pool.move perform partly program m).parties j).Calls ok :=
      calls_move m hprogram hparties
    simp only [states, cuts, List.mem_cons, List.mem_append, Option.mem_toList]
    constructor
    · intro h
      have hrest : ∀ s ∈ (pool.move perform partly program m).states perform partly program rest,
          I s.world := fun s hs => h s (.inr hs)
      have hnow : I (pool.move perform partly program m).world := by
        apply hrest
        cases rest <;> exact List.mem_cons_self ..
      intro cut hcut
      rcases hcut with hcut | hcut
      · exact hmove.mp hnow cut hcut
      · exact (ih hcalls hnow).mp hrest cut hcut
    · intro h
      have hnow := hmove.mpr fun cut hcut => h cut (.inl hcut)
      have hrest := (ih hcalls hnow).mpr fun cut hcut => h cut (.inr hcut)
      intro s hs
      rcases hs with rfl | hs
      · exact hI
      · exact hrest s hs

end Always

end Pool

end Attest.Library
