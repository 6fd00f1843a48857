import Attest.Library.Interleaving
import Mathlib.Logic.Relation

/-! Processes that share a world, each on what the others leave it.

A process is guarded by what it relies on and by what it guarantees: whatever the others do to the
world within the first, each of its calls stays within the second (`Process.Guarded`). Where what
one guarantees is what the others rely on, all of them stay guarded in whatever order they call
(`Pool.guarded_of_goes`), so what each promises of its own result holds of all results together. A
process that dies is one that never calls again. -/
namespace Attest.Library

namespace Process
variable {E : Type} {R : E → Type} {W α β ε : Type}

/-- Whatever the others do in between, each call does what is guaranteed, and the result stands by
`post` for good. -/
def Guarded (step : W → (e : E) → R e → W → Prop) (rely guar : W → W → Prop) (post : α → W → Prop) :
    Process E R α → W → Prop
  | .done a, w => ∀ w', rely w w' → post a w'
  | .call e next, w => ∀ w', rely w w' → ∀ r w'', step w' e r w'' →
      guar w' w'' ∧ Guarded step rely guar post (next r) w''

section Rules
variable {step : W → (e : E) → R e → W → Prop} {rely guar : W → W → Prop} {post : α → W → Prop}
  {p : Process E R α} {w w' : W}

theorem Guarded.later (h : Guarded step rely guar post p w)
    (htrans : ∀ a b c, rely a b → rely b c → rely a c) (hrely : rely w w') :
    Guarded step rely guar post p w' := by
  cases p with
  | done a =>
    intro w'' hrely'
    exact h w'' (htrans _ _ _ hrely hrely')
  | call e next =>
    intro w'' hrely'
    exact h w'' (htrans _ _ _ hrely hrely')

theorem Guarded.mono {post' : α → W → Prop} (h : Guarded step rely guar post p w)
    (hpost : ∀ a w, post a w → post' a w) : Guarded step rely guar post' p w := by
  induction p generalizing w with
  | done a =>
    intro w' hrely
    exact hpost a w' (h w' hrely)
  | call e next ih =>
    intro w' hrely r w'' hstep
    obtain ⟨hguar, hrest⟩ := h w' hrely r w'' hstep
    exact ⟨hguar, ih r hrest⟩

theorem Guarded.bind {f : α → Process E R β} {post : β → W → Prop} (hrefl : ∀ w, rely w w)
    (h : Guarded step rely guar (fun a w => Guarded step rely guar post (f a) w) p w) :
    Guarded step rely guar post (p >>= f) w := by
  induction p generalizing w with
  | done a => exact h w (hrefl w)
  | call e next ih =>
    intro w' hrely r w'' hstep
    obtain ⟨hguar, hrest⟩ := h w' hrely r w'' hstep
    exact ⟨hguar, ih r hrest⟩

end Rules

/-! ### Programs that can fail -/

section Failing
variable {step : W → (e : E) → R e → W → Prop} {rely guar : W → W → Prop}

/-- What is done with a result, if there is one. -/
def onward (step : W → (e : E) → R e → W → Prop) (rely guar : W → W → Prop)
    (f : α → ExceptT ε (Process E R) β) (post : Except ε β → W → Prop) : Except ε α → W → Prop
  | .ok a, w => Guarded step rely guar post (f a).run w
  | .error e, w => ∀ w', rely w w' → post (.error e) w'

theorem guarded_bind {x : ExceptT ε (Process E R) α} {f : α → ExceptT ε (Process E R) β}
    {post : Except ε β → W → Prop} {w : W} (hrefl : ∀ w, rely w w)
    (h : Guarded step rely guar (onward step rely guar f post) x.run w) :
    Guarded step rely guar post (x >>= f).run w := by
  refine Guarded.bind hrefl ?_
  have hcont : (fun (r : Except ε α) (w : W) =>
      Guarded step rely guar post (ExceptT.bindCont f r) w) = onward step rely guar f post := by
    funext r w
    cases r with
    | ok a => rfl
    | error e => rfl
  rw [hcont]
  exact h

end Failing
end Process

/-! ### All of them -/

namespace Pool
variable {ι E : Type} {R : E → Type} {W α : Type} [DecidableEq ι]

/-- One of them makes a call, with a reply it can get. -/
inductive Goes (step : ι → W → (e : E) → R e → W → Prop) :
    Pool ι E R W α → Pool ι E R W α → Prop
  | call {pool : Pool ι E R W α} {i : ι} {e : E} {next : R e → Process E R α} {r : R e} {w' : W}
      (h : pool.parties i = .call e next) (hstep : step i pool.world e r w') :
      Goes step pool ⟨Function.update pool.parties i (next r), w'⟩

variable {step : ι → W → (e : E) → R e → W → Prop} {rely guar : ι → W → W → Prop}
  {post : ι → α → W → Prop} {pool pool' : Pool ι E R W α}

/-- What each of them is guarded by, and what all of them keep of the world. -/
structure AllGuarded (step : ι → W → (e : E) → R e → W → Prop) (rely guar : ι → W → W → Prop)
    (post : ι → α → W → Prop) (I : W → Prop) (pool : Pool ι E R W α) : Prop where
  parties : ∀ i, (pool.parties i).Guarded (step i) (rely i) (guar i) (post i) pool.world
  world : I pool.world

/-- **Each on what the others leave it.** -/
theorem guarded_of_goes {I : W → Prop} (hrefl : ∀ i w, rely i w w)
    (htrans : ∀ i a b c, rely i a b → rely i b c → rely i a c)
    (hother : ∀ i j w w', i ≠ j → guar i w w' → rely j w w')
    (hkeep : ∀ i w w', guar i w w' → I w → I w')
    (hstart : AllGuarded step rely guar post I pool)
    (hgoes : Relation.ReflTransGen (Goes step) pool pool') :
    AllGuarded step rely guar post I pool' := by
  induction hgoes with
  | refl => exact hstart
  | @tail before after _ hgo ih =>
    cases hgo with
    | @call i e next r w' hparty hstep =>
      have hi := ih.parties i
      rw [hparty] at hi
      obtain ⟨hguar, hnext⟩ := hi _ (hrefl i _) r w' hstep
      constructor
      · intro j
        by_cases hj : j = i
        · subst hj
          show ((Function.update before.parties j (next r)) j).Guarded _ _ _ _ _
          rw [Function.update_self]
          exact hnext
        · show ((Function.update before.parties i (next r)) j).Guarded _ _ _ _ _
          rw [Function.update_of_ne hj]
          exact (ih.parties j).later (htrans j) (hother i j _ _ (Ne.symm hj) hguar)
      · exact hkeep i _ _ hguar ih.world

omit [DecidableEq ι] in
/-- What one that has ended says stands. -/
theorem AllGuarded.done {I : W → Prop} {i : ι} {a : α} (hrefl : ∀ i w, rely i w w)
    (h : AllGuarded step rely guar post I pool) (hdone : pool.parties i = .done a) :
    post i a pool.world := by
  have hi := h.parties i
  rw [hdone] at hi
  exact hi _ (hrefl i _)

/-- One of them can go on alone to its end. -/
theorem goes_run {perform : W → (e : E) → R e × W} {i : ι}
    (hperform : ∀ w e, step i w e (perform w e).1 (perform w e).2) (p : Process E R α) :
    ∀ pool : Pool ι E R W α, pool.parties i = p →
      Relation.ReflTransGen (Goes step) pool
        ⟨Function.update pool.parties i (.done (p.run perform pool.world).1),
          (p.run perform pool.world).2⟩ := by
  induction p with
  | done a =>
    intro pool hparty
    have hsame : Function.update pool.parties i (.done a) = pool.parties := by
      rw [← hparty]
      exact Function.update_eq_self i pool.parties
    show Relation.ReflTransGen _ pool ⟨Function.update pool.parties i (.done a), pool.world⟩
    rw [hsame]
  | call e next ih =>
    intro pool hparty
    have hcall := Goes.call hparty (hperform pool.world e)
    have hrest := ih (perform pool.world e).1
      ⟨Function.update pool.parties i (next (perform pool.world e).1), (perform pool.world e).2⟩
      (Function.update_self ..)
    simp only [Function.update_idem] at hrest
    exact .head hcall hrest

end Pool

end Attest.Library
