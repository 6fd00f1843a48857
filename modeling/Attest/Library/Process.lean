import Mathlib.Logic.Relation

/-! Programs as the calls they make.

A `Process` makes calls and goes on with the replies; what a call does to the world and
which replies it can get is a relation, so that one program has as many runs as there are
replies. `Safe` says of every run that each step keeps a guarantee and that the result is
as promised. `Held` runs processes under one lock: whoever finds it free takes it, a
process may die at any call and leave it behind, and nobody but an operator takes a lock
away, when no one works. What is safe for each process alone then holds across all of
them (`held_safe`). -/
namespace Attest.Library

/-- A program that makes calls and goes on with the replies. -/
inductive Process (E : Type) (R : E → Type) (α : Type) : Type
  | done (a : α)
  | call (e : E) (next : R e → Process E R α)

namespace Process

variable {E : Type} {R : E → Type} {W α β : Type}

def bind (p : Process E R α) (f : α → Process E R β) : Process E R β :=
  match p with
  | .done a => f a
  | .call e next => .call e fun r => (next r).bind f

instance : Monad (Process E R) where
  pure := .done
  bind := Process.bind

/-- One call, whose reply is the result. -/
def ask (e : E) : Process E R (R e) := .call e .done

@[simp] theorem pure_bind_eq (a : α) (f : α → Process E R β) :
    ((pure a : Process E R α) >>= f) = f a := rfl

@[simp] theorem done_bind_eq (a : α) (f : α → Process E R β) : (.done a >>= f) = f a := rfl

@[simp] theorem call_bind_eq (e : E) (next : R e → Process E R α) (f : α → Process E R β) :
    (.call e next >>= f) = .call e fun r => next r >>= f := rfl

/-! ### Safety -/

/-- Along every run each call relates the world before to the world after by `G`, and the
result with the last world satisfies `post`. -/
def Safe (step : W → (e : E) → R e → W → Prop) (G : W → W → Prop) (post : α → W → Prop) :
    Process E R α → W → Prop
  | .done a, w => post a w
  | .call e next, w => ∀ r w', step w e r w' → G w w' ∧ Safe step G post (next r) w'

section Rules
variable {step : W → (e : E) → R e → W → Prop} {G : W → W → Prop}

theorem safe_pure {post : α → W → Prop} {a : α} {w : W} :
    Safe step G post (pure a) w ↔ post a w := Iff.rfl

theorem safe_ask {e : E} {post : R e → W → Prop} {w : W} :
    Safe step G post (ask e) w ↔ ∀ r w', step w e r w' → G w w' ∧ post r w' := Iff.rfl

theorem safe_bind {p : Process E R α} {f : α → Process E R β} {post : β → W → Prop} {w : W} :
    Safe step G post (p >>= f) w ↔ Safe step G (fun a w => Safe step G post (f a) w) p w := by
  induction p generalizing w with
  | done a => exact Iff.rfl
  | call e next ih =>
    simp only [call_bind_eq, Safe, ih]

theorem Safe.mono {p : Process E R α} {post post' : α → W → Prop} {w : W}
    (h : Safe step G post p w) (hpost : ∀ a w, post a w → post' a w) :
    Safe step G post' p w := by
  induction p generalizing w with
  | done a => exact hpost a w h
  | call e next ih =>
    intro r w' hstep
    exact ⟨(h r w' hstep).1, ih r (h r w' hstep).2⟩

end Rules

/-! ### Programs with a state of their own, that can fail -/

section Script
variable {step : W → (e : E) → R e → W → Prop} {G : W → W → Prop} {ε σ : Type}

/-- A program that can fail, and keeps its state when it does. -/
abbrev Script (E : Type) (R : E → Type) (ε σ : Type) := ExceptT ε (StateT σ (Process E R))

/-- What holds of the result, the state and the world in the end. -/
def Ends (step : W → (e : E) → R e → W → Prop) (G : W → W → Prop) (x : Script E R ε σ α)
    (s : σ) (w : W) (post : Except ε α → σ → W → Prop) : Prop :=
  Safe step G (fun r w => post r.1 r.2 w) (x.run.run s) w

theorem ends_pure {a : α} {s : σ} {w : W} {post : Except ε α → σ → W → Prop} :
    Ends step G (pure a) s w post ↔ post (.ok a) s w := Iff.rfl

theorem ends_throw {e : ε} {s : σ} {w : W} {post : Except ε α → σ → W → Prop} :
    Ends step G (throw e) s w post ↔ post (.error e) s w := Iff.rfl

theorem ends_get {s : σ} {w : W} {post : Except ε σ → σ → W → Prop} :
    Ends step G get s w post ↔ post (.ok s) s w := Iff.rfl

theorem ends_modify {g : σ → σ} {s : σ} {w : W} {post : Except ε PUnit → σ → W → Prop} :
    Ends step G (modify g) s w post ↔ post (.ok ⟨⟩) (g s) w := Iff.rfl

/-- What is done with the result when there is one. -/
def andThen (step : W → (e : E) → R e → W → Prop) (G : W → W → Prop) (f : α → Script E R ε σ β)
    (post : Except ε β → σ → W → Prop) : Except ε α → σ → W → Prop
  | .ok a, s, w => Ends step G (f a) s w post
  | .error e, s, w => post (.error e) s w

theorem ends_bind {x : Script E R ε σ α} {f : α → Script E R ε σ β} {s : σ} {w : W}
    {post : Except ε β → σ → W → Prop} :
    Ends step G (x >>= f) s w post ↔ Ends step G x s w (andThen step G f post) := by
  have hrun : (x >>= f).run.run s =
      x.run.run s >>= fun r => (ExceptT.bindCont f r.1).run r.2 := rfl
  rw [Ends, hrun, safe_bind, Ends]
  have hpost : (fun (r : Except ε α × σ) w => Safe step G (fun r w => post r.1 r.2 w)
      ((ExceptT.bindCont f r.1).run r.2) w) = fun r w => andThen step G f post r.1 r.2 w := by
    funext r w
    cases r with
    | mk result s => cases result <;> rfl
  rw [hpost]

theorem Ends.mono {x : Script E R ε σ α} {s : σ} {w : W} {post post' : Except ε α → σ → W → Prop}
    (h : Ends step G x s w post) (hpost : ∀ r s w, post r s w → post' r s w) :
    Ends step G x s w post' :=
  Safe.mono h fun r w hr => hpost r.1 r.2 w hr

/-- A step with a promise, and what follows from the promise. -/
theorem Ends.bind {x : Script E R ε σ α} {f : α → Script E R ε σ β} {s : σ} {w : W}
    {mid : Except ε α → σ → W → Prop} {post : Except ε β → σ → W → Prop}
    (h : Ends step G x s w mid)
    (hok : ∀ a s w, mid (.ok a) s w → Ends step G (f a) s w post)
    (herror : ∀ e s w, mid (.error e) s w → post (.error e) s w) :
    Ends step G (x >>= f) s w post := by
  refine ends_bind.mpr (h.mono ?_)
  intro r s w hr
  cases r with
  | ok a => exact hok a s w hr
  | error e => exact herror e s w hr

/-- A process of its own within a script. -/
theorem ends_lift {p : Process E R α} {s : σ} {w : W} {post : Except ε α → σ → W → Prop} :
    Ends step G (ExceptT.lift (StateT.lift p)) s w post ↔
      Safe step G (fun a w => post (.ok a) s w) p w := by
  have hrun : (ExceptT.lift (StateT.lift p) : Script E R ε σ α).run.run s =
      (p >>= fun a => pure (a, s)) >>= fun r => pure (.ok r.1, r.2) := rfl
  rw [Ends, hrun, safe_bind, safe_bind]
  rfl

/-- A call from within a script. -/
def request (e : E) : Script E R ε σ (R e) := ExceptT.lift (StateT.lift (ask e))

theorem ends_request {e : E} {s : σ} {w : W} {post : Except ε (R e) → σ → W → Prop} :
    Ends step G (request e) s w post ↔
      ∀ r w', step w e r w' → G w w' ∧ post (.ok r) s w' := Iff.rfl

theorem ends_get_bind {f : σ → Script E R ε σ β} {s : σ} {w : W} {post : Except ε β → σ → W → Prop} :
    Ends step G (get >>= f) s w post ↔ Ends step G (f s) s w post := Iff.rfl

theorem ends_modify_bind {g : σ → σ} {f : PUnit → Script E R ε σ β} {s : σ} {w : W}
    {post : Except ε β → σ → W → Prop} :
    Ends step G (modify g >>= f) s w post ↔ Ends step G (f ⟨⟩) (g s) w post := Iff.rfl

theorem ends_request_bind {e : E} {f : R e → Script E R ε σ β} {s : σ} {w : W}
    {post : Except ε β → σ → W → Prop} :
    Ends step G (request e >>= f) s w post ↔
      ∀ r w', step w e r w' → G w w' ∧ Ends step G (f r) s w' post := Iff.rfl

end Script

/-! ### Runs -/

/-- One call of a process, with a reply it can get. -/
inductive Goes (step : W → (e : E) → R e → W → Prop) :
    Process E R α × W → Process E R α × W → Prop
  | call {e : E} {next : R e → Process E R α} {r : R e} {w w' : W} (h : step w e r w') :
      Goes step (.call e next, w) (next r, w')

/-- A part of a run is a part of the run of anything that starts with it. -/
theorem goes_bind {step : W → (e : E) → R e → W → Prop} {p p' : Process E R α} {w w' : W}
    (h : Relation.ReflTransGen (Goes step) (p, w) (p', w')) (f : α → Process E R β) :
    Relation.ReflTransGen (Goes step) (p >>= f, w) (p' >>= f, w') := by
  generalize hs : (p, w) = s at h
  generalize hs' : (p', w') = s' at h
  induction h generalizing p' w' with
  | refl =>
    cases hs
    cases hs'
    exact .refl
  | tail hrun hgo ih =>
    cases hgo with
    | call hstep =>
      cases hs'
      exact (ih rfl).tail (.call hstep)

/-- Where a safe process has come to, it is safe from there on. -/
theorem Safe.goes {step : W → (e : E) → R e → W → Prop} {G : W → W → Prop} {post : α → W → Prop}
    {p p' : Process E R α} {w w' : W} (h : Safe step G post p w)
    (hgo : Relation.ReflTransGen (Goes step) (p, w) (p', w')) : Safe step G post p' w' := by
  generalize hs : (p, w) = s at hgo
  generalize hs' : (p', w') = s' at hgo
  induction hgo generalizing p' w' with
  | refl =>
    cases hs
    cases hs'
    exact h
  | tail hrun hgo ih =>
    cases hgo with
    | call hstep =>
      cases hs'
      exact (ih rfl _ _ hstep).2

section Reaches
variable {step : W → (e : E) → R e → W → Prop} {ε σ : Type}

/-- A run of a script to its end. -/
def Reaches (step : W → (e : E) → R e → W → Prop) (x : Script E R ε σ α) (s : σ) (w : W)
    (r : Except ε α) (s' : σ) (w' : W) : Prop :=
  Relation.ReflTransGen (Goes step) (x.run.run s, w) (.done (r, s'), w')

variable {x : Script E R ε σ α} {f : α → Script E R ε σ β} {s s' s'' : σ} {w w' w'' : W}

theorem reaches_pure (a : α) (s : σ) (w : W) :
    Reaches step (pure a : Script E R ε σ α) s w (.ok a) s w := .refl

theorem reaches_throw (e : ε) (s : σ) (w : W) :
    Reaches step (throw e : Script E R ε σ α) s w (.error e) s w := .refl

theorem reaches_get (s : σ) (w : W) : Reaches step (get : Script E R ε σ σ) s w (.ok s) s w := .refl

theorem reaches_modify (g : σ → σ) (s : σ) (w : W) :
    Reaches step (modify g : Script E R ε σ PUnit) s w (.ok ⟨⟩) (g s) w := .refl

theorem reaches_request {e : E} {r : R e} (s : σ) (h : step w e r w') :
    Reaches step (request e : Script E R ε σ (R e)) s w (.ok r) s w' := .single (.call h)

/-- The first part of a script, before the rest. -/
theorem Reaches.goes {a : α} (h : Reaches step x s w (.ok a) s' w') (f : α → Script E R ε σ β) :
    Relation.ReflTransGen (Goes step) ((x >>= f).run.run s, w) ((f a).run.run s', w') :=
  goes_bind h fun r => (ExceptT.bindCont f r.1).run r.2

theorem Reaches.bind {a : α} {r : Except ε β} (h : Reaches step x s w (.ok a) s' w')
    (hf : Reaches step (f a) s' w' r s'' w'') : Reaches step (x >>= f) s w r s'' w'' :=
  (h.goes f).trans hf

theorem Reaches.bind_error {e : ε} (h : Reaches step x s w (.error e) s' w') :
    Reaches step (x >>= f) s w (.error e) s' w' :=
  goes_bind h fun r => (ExceptT.bindCont f r.1).run r.2

theorem reaches_lift {p : Process E R α} {a : α} (s : σ)
    (h : Relation.ReflTransGen (Goes step) (p, w) (.done a, w')) :
    Reaches step (ExceptT.lift (StateT.lift p) : Script E R ε σ α) s w (.ok a) s w' := by
  have hstate := goes_bind h fun a => (pure (a, s) : Process E R (α × σ))
  exact goes_bind hstate fun r => (pure (.ok r.1, r.2) : Process E R (Except ε α × σ))

end Reaches

end Process

/-! ### One at a time -/

section Held
variable {E : Type} {R : E → Type} {W α : Type}

/-- A world behind a lock, and the processes that work on it. -/
structure Held (E : Type) (R : E → Type) (W α : Type) where
  locked : Bool
  active : List (Process E R α)
  world : W

/-- What can happen: somebody finds the lock free and takes it; a process makes a call; one
ends and gives the lock back, or fails to; one dies where it stands; and an operator
removes a lock that was left behind. -/
inductive Held.Moves (step : W → (e : E) → R e → W → Prop) (starts : Process E R α → Prop) :
    Held E R W α → Held E R W α → Prop
  | acquire {active : List (Process E R α)} {world : W} {p : Process E R α} (h : starts p) :
      Moves step starts ⟨false, active, world⟩ ⟨true, p :: active, world⟩
  | call {locked : Bool} {before after : List (Process E R α)} {world world' : W} {e : E}
      {next : R e → Process E R α} {r : R e} (h : step world e r world') :
      Moves step starts ⟨locked, before ++ .call e next :: after, world⟩
        ⟨locked, before ++ next r :: after, world'⟩
  | finish {locked released : Bool} {before after : List (Process E R α)} {world : W} {a : α} :
      Moves step starts ⟨locked, before ++ .done a :: after, world⟩
        ⟨locked && !released, before ++ after, world⟩
  | crash {locked : Bool} {before after : List (Process E R α)} {world : W} {p : Process E R α} :
      Moves step starts ⟨locked, before ++ p :: after, world⟩ ⟨locked, before ++ after, world⟩
  | unlock {locked : Bool} {world : W} :
      Moves step starts ⟨locked, [], world⟩ ⟨false, [], world⟩

variable {step : W → (e : E) → R e → W → Prop} {starts : Process E R α → Prop}
  {I : W → Prop} {G : W → W → Prop}

/-- The one that has the lock goes on. -/
theorem moves_of_goes {p p' : Process E R α} {w w' : W}
    (h : Relation.ReflTransGen (Process.Goes step) (p, w) (p', w')) :
    Relation.ReflTransGen (Held.Moves step starts) ⟨true, [p], w⟩ ⟨true, [p'], w'⟩ := by
  refine Relation.ReflTransGen.lift (fun q : Process E R α × W => Held.mk true [q.1] q.2) ?_ _ _ h
  rintro _ _ ⟨hstep⟩
  have hcall := @Held.Moves.call E R W α step starts true [] []
  exact hcall hstep

/-- At most one works, under the lock, and what is left of it is safe. -/
def Held.Orderly (step : W → (e : E) → R e → W → Prop) (I : W → Prop) (G : W → W → Prop)
    (s : Held E R W α) : Prop :=
  I s.world ∧ (s.active = [] ∨ s.locked = true ∧ ∃ p, s.active = [p] ∧
    p.Safe step (fun w w' => I w' ∧ G w w') (fun _ _ => True) s.world)

/-- The one that works is the one that moves. -/
theorem eq_of_orderly {s : Held E R W α} {before after : List (Process E R α)} {p : Process E R α}
    (h : s.Orderly step I G) (hactive : s.active = before ++ p :: after) :
    before = [] ∧ after = [] ∧ s.locked = true ∧
      p.Safe step (fun w w' => I w' ∧ G w w') (fun _ _ => True) s.world := by
  rcases h.2 with hnone | ⟨hlocked, q, hone, hsafe⟩
  · rw [hnone] at hactive
    simp at hactive
  · rw [hone] at hactive
    cases before with
    | nil =>
      obtain ⟨rfl, hafter⟩ := List.cons.inj hactive
      exact ⟨rfl, hafter.symm, hlocked, hsafe⟩
    | cons b before => simp at hactive

theorem orderly_step {s s' : Held E R W α} (hrefl : ∀ w, G w w)
    (hstarts : ∀ p, starts p → ∀ w, I w →
      p.Safe step (fun w w' => I w' ∧ G w w') (fun _ _ => True) w)
    (h : s.Orderly step I G) (hmove : Held.Moves step starts s s') :
    s'.Orderly step I G ∧ G s.world s'.world := by
  cases hmove with
  | acquire hp =>
    have hempty := h.2.resolve_right fun hlocked => Bool.noConfusion hlocked.1
    simp only [] at hempty
    subst hempty
    exact ⟨⟨h.1, .inr ⟨rfl, _, rfl, hstarts _ hp _ h.1⟩⟩, hrefl _⟩
  | call hstep =>
    obtain ⟨rfl, rfl, hlocked, hsafe⟩ := eq_of_orderly h rfl
    obtain ⟨⟨hI, hG⟩, hrest⟩ := hsafe _ _ hstep
    exact ⟨⟨hI, .inr ⟨hlocked, _, rfl, hrest⟩⟩, hG⟩
  | finish =>
    obtain ⟨rfl, rfl, _, _⟩ := eq_of_orderly h rfl
    exact ⟨⟨h.1, .inl rfl⟩, hrefl _⟩
  | crash =>
    obtain ⟨rfl, rfl, _, _⟩ := eq_of_orderly h rfl
    exact ⟨⟨h.1, .inl rfl⟩, hrefl _⟩
  | unlock => exact ⟨⟨h.1, .inl rfl⟩, hrefl _⟩

/-- Any number of runs, in whatever order, with whatever crashes. -/
theorem held_safe {s s' : Held E R W α} (hrefl : ∀ w, G w w)
    (htrans : ∀ a b c, I a → G a b → G b c → G a c)
    (hstarts : ∀ p, starts p → ∀ w, I w →
      p.Safe step (fun w w' => I w' ∧ G w w') (fun _ _ => True) w)
    (h : s.Orderly step I G) (hmoves : Relation.ReflTransGen (Held.Moves step starts) s s') :
    s'.Orderly step I G ∧ G s.world s'.world := by
  induction hmoves with
  | refl => exact ⟨h, hrefl _⟩
  | tail _ hmove ih =>
    obtain ⟨horderly, hG⟩ := ih
    obtain ⟨horderly', hG'⟩ := orderly_step hrefl hstarts horderly hmove
    exact ⟨horderly', htrans _ _ _ h.1 hG hG'⟩

end Held

end Attest.Library
