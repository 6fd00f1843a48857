import Mathlib.Order.Defs.Unbundled

/-! Programs that can fail and keep what they did.

`EStateM` runs a step at a time on one state, and a step that fails leaves the
state as it stands: nothing is rolled back. A run that succeeds is taken apart
step by step (`bind_eq_ok`); a step that only looks at the state is a function of
it (`reading`); and what holds between the state before and the state after, in
whichever way a run ends, is a relation that composes (`Within`). What a run ends in when it
succeeds and when it does not is said apart by `EndsIn`, with a rule for loops
(`endsIn_forM`). -/
namespace Attest.Library.Fallible

variable {ε σ α β : Type}

/-! ### Runs that succeed -/

theorem bind_eq_ok {x : EStateM ε σ α} {f : α → EStateM ε σ β} {s s' : σ} {b : β} :
    (x >>= f) s = .ok b s' ↔ ∃ a s₁, x s = .ok a s₁ ∧ f a s₁ = .ok b s' := by
  show EStateM.bind x f s = .ok b s' ↔ _
  unfold EStateM.bind
  cases x s with
  | ok a s₁ =>
    constructor
    · intro h
      exact ⟨a, s₁, rfl, h⟩
    · rintro ⟨_, _, ⟨⟩, h⟩
      exact h
  | error e s₁ => simp

theorem bind_eq_error {x : EStateM ε σ α} {f : α → EStateM ε σ β} {s s' : σ} {e : ε} :
    (x >>= f) s = .error e s' ↔
      x s = .error e s' ∨ ∃ a s₁, x s = .ok a s₁ ∧ f a s₁ = .error e s' := by
  show EStateM.bind x f s = .error e s' ↔ _
  unfold EStateM.bind
  cases x s with
  | ok a s₁ =>
    constructor
    · intro h
      exact .inr ⟨a, s₁, rfl, h⟩
    · rintro (⟨⟨⟩⟩ | ⟨_, _, ⟨⟩, h⟩)
      exact h
  | error e' s₁ => simp

theorem bind_of_ok {x : EStateM ε σ α} {f : α → EStateM ε σ β} {s s₁ : σ} {a : α}
    (h : x s = .ok a s₁) : (x >>= f) s = f a s₁ := by
  show EStateM.bind x f s = f a s₁
  simp only [EStateM.bind, h]

theorem pure_ne_error {a : α} {s s' : σ} {e : ε} :
    (pure a : EStateM ε σ α) s ≠ .error e s' := by
  show EStateM.Result.ok a s ≠ .error e s'
  simp

theorem pure_eq_ok {a b : α} {s s' : σ} :
    (pure a : EStateM ε σ α) s = .ok b s' ↔ a = b ∧ s = s' := by
  show EStateM.Result.ok a s = .ok b s' ↔ _
  simp

/-- The same without a state. -/
theorem except_bind_eq_ok {x : Except ε α} {f : α → Except ε β} {b : β} :
    (x >>= f) = .ok b ↔ ∃ a, x = .ok a ∧ f a = .ok b := by
  cases x with
  | error e => simp [bind, Except.bind]
  | ok a => simp [bind, Except.bind]

theorem except_ok_bind {a : α} {f : α → Except ε β} : (Except.ok a >>= f) = f a := rfl

theorem mapError_error {ε' : Type} (f : ε → ε') (e : ε) :
    (.error e : Except ε α).mapError f = .error (f e) := rfl

theorem mapError_ok {ε' : Type} (f : ε → ε') (a : α) : (.ok a : Except ε α).mapError f = .ok a := rfl

/-- An error in other words is an error still. -/
theorem mapError_eq_ok {ε' : Type} {x : Except ε α} {f : ε → ε'} {a : α} :
    x.mapError f = .ok a ↔ x = .ok a := by
  cases x with
  | error e => simp [mapError_error]
  | ok b => simp [mapError_ok]

/-- A refusal on a condition. -/
def refuseIf (p : Prop) [Decidable p] (e : ε) : Except ε Unit := if p then .error e else .ok ()

theorem refuseIf_eq_ok {p : Prop} [Decidable p] {e : ε} {u : Unit} :
    refuseIf p e = .ok u ↔ ¬ p := by
  unfold refuseIf
  split
  next h => simp [h]
  next h => simp [h]

theorem toOption_eq_some {x : Except ε β} {b : β} : x.toOption = some b ↔ x = .ok b := by
  cases x with
  | error e => simp [Except.toOption]
  | ok b => simp [Except.toOption]

/-- All the results of a list are there, or none is. -/
theorem mapM_eq_ok {f : α → Except ε β} {l : List α} {results : List β} :
    l.mapM f = .ok results ↔
      (∀ a ∈ l, ∃ b, f a = .ok b) ∧ results = l.filterMap fun a => (f a).toOption := by
  induction l generalizing results with
  | nil => simp [pure, Except.pure, eq_comm]
  | cons a l ih =>
    rw [List.mapM_cons, List.forall_mem_cons, List.filterMap_cons]
    cases hfirst : f a with
    | error e => simp [bind, Except.bind]
    | ok first =>
      rw [except_bind_eq_ok]
      constructor
      · intro h
        obtain ⟨_, ⟨⟩, h⟩ := h
        obtain ⟨rest, hrest, h⟩ := except_bind_eq_ok.mp h
        cases h
        obtain ⟨hall, rfl⟩ := ih.mp hrest
        exact ⟨⟨⟨first, rfl⟩, hall⟩, rfl⟩
      · intro h
        obtain ⟨⟨_, hall⟩, rfl⟩ := h
        exact ⟨first, rfl, except_bind_eq_ok.mpr ⟨_, ih.mpr ⟨hall, rfl⟩, rfl⟩⟩

/-- Where one function succeeds another does alike. -/
theorem mapM_ok_mono {f g : α → Except ε β} {l : List α} {results : List β}
    (hmono : ∀ a ∈ l, ∀ b, f a = .ok b → g a = .ok b) (h : l.mapM f = .ok results) :
    l.mapM g = .ok results := by
  induction l generalizing results with
  | nil => exact h
  | cons a rest ih =>
    rw [List.forall_mem_cons] at hmono
    rw [List.mapM_cons] at h ⊢
    obtain ⟨b, hb, h⟩ := except_bind_eq_ok.mp h
    obtain ⟨more, hmore, h⟩ := except_bind_eq_ok.mp h
    rw [hmono.1 b hb, except_ok_bind, ih hmono.2 hmore, except_ok_bind]
    exact h

theorem foldlM_ok_mono {f g : β → α → Except ε β} {l : List α} {b result : β}
    (hmono : ∀ a ∈ l, ∀ b b', f b a = .ok b' → g b a = .ok b') (h : l.foldlM f b = .ok result) :
    l.foldlM g b = .ok result := by
  induction l generalizing b with
  | nil => exact h
  | cons a rest ih =>
    rw [List.forall_mem_cons] at hmono
    rw [List.foldlM_cons] at h ⊢
    obtain ⟨b', hb, h⟩ := except_bind_eq_ok.mp h
    rw [hmono.1 b b' hb, except_ok_bind]
    exact ih hmono.2 h

/-- Each element of a list is taken on its own. -/
theorem foldlM_ok_mem {f : β → α → Except ε β} {l : List α} {b result : β}
    (h : l.foldlM f b = .ok result) {a : α} (ha : a ∈ l) : ∃ before after, f before a = .ok after := by
  induction l generalizing b with
  | nil => cases ha
  | cons first rest ih =>
    rw [List.foldlM_cons] at h
    obtain ⟨after, hafter, h⟩ := except_bind_eq_ok.mp h
    rcases List.mem_cons.mp ha with rfl | ha
    · exact ⟨b, after, hafter⟩
    · exact ih h ha

/-- Results of a list come from its elements. -/
theorem mem_of_mapM_eq_ok {f : α → Except ε β} {l : List α} {results : List β} {b : β}
    (h : l.mapM f = .ok results) (hb : b ∈ results) : ∃ a ∈ l, f a = .ok b := by
  obtain ⟨_, rfl⟩ := mapM_eq_ok.mp h
  obtain ⟨a, ha, hresult⟩ := List.mem_filterMap.mp hb
  exact ⟨a, ha, toOption_eq_some.mp hresult⟩

/-- The first of the results with a property, when all of them are there. -/
theorem find?_mapM {f : α → Except ε β} {p : β → Bool} {l : List α} {b : β} :
    (∃ results, l.mapM f = .ok results ∧ results.find? p = some b) ↔
      (∀ a ∈ l, ∃ b, f a = .ok b) ∧ ∃ before a after, l = before ++ a :: after ∧
        f a = .ok b ∧ p b = true ∧ ∀ a ∈ before, ∀ b, f a = .ok b → p b = false := by
  constructor
  · intro h
    obtain ⟨results, hmap, hfind⟩ := h
    obtain ⟨hall, rfl⟩ := mapM_eq_ok.mp hmap
    rw [List.find?_filterMap, Option.bind_eq_some_iff] at hfind
    obtain ⟨a, hfind, hb⟩ := hfind
    obtain ⟨hp, before, after, hsplit, hbefore⟩ := List.find?_eq_some_iff_append.mp hfind
    rw [hb] at hp
    refine ⟨hall, before, a, after, hsplit, toOption_eq_some.mp hb, hp, ?_⟩
    intro a' ha' b' hb'
    have hnot := hbefore a' ha'
    rw [toOption_eq_some.mpr hb'] at hnot
    simpa using hnot
  · intro h
    obtain ⟨hall, before, a, after, hsplit, hb, hp, hbefore⟩ := h
    refine ⟨_, mapM_eq_ok.mpr ⟨hall, rfl⟩, ?_⟩
    rw [List.find?_filterMap, Option.bind_eq_some_iff]
    refine ⟨a, List.find?_eq_some_iff_append.mpr ⟨?_, before, after, hsplit, ?_⟩,
      toOption_eq_some.mpr hb⟩
    · rw [hb]
      exact hp
    · intro a' ha'
      cases hb' : f a' with
      | error e => rfl
      | ok b' => simpa [Except.toOption] using hbefore a' ha' b' hb'

/-- A check of each element, one after the other. -/
theorem forM_eq_ok {l : List α} {f : α → Except ε Unit} :
    l.forM f = .ok () ↔ ∀ x ∈ l, f x = .ok () := by
  induction l with
  | nil => simp [pure, Except.pure]
  | cons x rest ih =>
    have hcons : (x :: rest).forM f = f x >>= fun _ => rest.forM f := rfl
    rw [hcons, except_bind_eq_ok, ih, List.forall_mem_cons]
    exact ⟨fun ⟨_, hx, hrest⟩ => ⟨hx, hrest⟩, fun ⟨hx, hrest⟩ => ⟨(), hx, hrest⟩⟩

/-! ### Steps that only look -/

/-- A function of the state that can fail, as a step. -/
def reading (f : σ → Except ε α) : EStateM ε σ α := fun s =>
  match f s with
  | .ok a => .ok a s
  | .error e => .error e s

theorem reading_eq_ok {f : σ → Except ε α} {s s' : σ} {a : α} :
    reading f s = .ok a s' ↔ f s = .ok a ∧ s = s' := by
  unfold reading
  cases h : f s with
  | ok b => simp
  | error e => simp

theorem reading_eq_error {f : σ → Except ε α} {s s' : σ} {e : ε} :
    reading f s = .error e s' ↔ f s = .error e ∧ s = s' := by
  unfold reading
  cases h : f s with
  | ok b => simp
  | error e' => simp

theorem reading_of_ok {f : σ → Except ε α} {s : σ} {a : α} (h : f s = .ok a) :
    reading f s = .ok a s := by
  simp only [reading, h]

/-- A look that cannot fail. -/
theorem reading_ok_bind (f : σ → α) (g : α → EStateM ε σ β) (s : σ) :
    (reading (fun s => .ok (f s)) >>= g) s = g (f s) s := rfl

theorem reading_bind_of_error {f : σ → Except ε α} {g : α → EStateM ε σ β} {s : σ} {e : ε}
    (h : f s = .error e) : (reading f >>= g) s = .error e s := by
  show EStateM.bind (reading f) g s = .error e s
  simp only [EStateM.bind, reading, h]

/-! ### What a run does to the state, however it ends -/

def final (x : EStateM ε σ α) (s : σ) : σ :=
  match x s with
  | .ok _ s' => s'
  | .error _ s' => s'

theorem final_of_ok {x : EStateM ε σ α} {s s' : σ} {a : α} (h : x s = .ok a s') :
    final x s = s' := by
  rw [final, h]

theorem final_bind {x : EStateM ε σ α} {f : α → EStateM ε σ β} {s : σ} :
    final (x >>= f) s = match x s with
      | .ok a s₁ => final (f a) s₁
      | .error _ s₁ => s₁ := by
  show (match EStateM.bind x f s with | .ok _ s' => s' | .error _ s' => s') = _
  unfold EStateM.bind
  cases x s with
  | ok a s₁ => rfl
  | error e s₁ => rfl

/-- What is done with the result of a run, and not with the state, does not count. -/
theorem final_bind_pure {x : EStateM ε σ α} {g : α → β} {s : σ} :
    final (x >>= fun a => pure (g a)) s = final x s := by
  rw [final_bind, final]
  cases x s with
  | ok a s₁ => rfl
  | error e s₁ => rfl

theorem final_reading_bind {f : σ → Except ε α} {g : α → EStateM ε σ β} {s : σ} :
    final (reading f >>= g) s = match f s with
      | .ok a => final (g a) s
      | .error _ => s := by
  rw [final_bind, reading]
  cases f s with
  | ok a => rfl
  | error e => rfl

/-- Every run relates the state it starts in to the one it ends in. -/
def Within (R : σ → σ → Prop) (x : EStateM ε σ α) : Prop := ∀ s, R s (final x s)

section Rules
variable {R : σ → σ → Prop}

theorem within_pure (hrefl : ∀ s, R s s) (a : α) : Within R (pure a : EStateM ε σ α) :=
  fun s => hrefl s

theorem within_reading (hrefl : ∀ s, R s s) (f : σ → Except ε α) : Within R (reading f) := by
  intro s
  unfold final reading
  cases f s with
  | ok a => exact hrefl s
  | error e => exact hrefl s

theorem within_bind {x : EStateM ε σ α} {f : α → EStateM ε σ β} (hx : Within R x)
    (hf : ∀ a, Within R (f a)) (htrans : ∀ a b c, R a b → R b c → R a c) :
    Within R (x >>= f) := by
  intro s
  have hs := hx s
  rw [final] at hs
  rw [final_bind]
  cases h : x s with
  | ok a s₁ =>
    rw [h] at hs
    exact htrans _ _ _ hs (hf a s₁)
  | error e s₁ =>
    rw [h] at hs
    exact hs

theorem within_mono {S : σ → σ → Prop} {x : EStateM ε σ α} (hx : Within R x)
    (h : ∀ a b, R a b → S a b) : Within S x := fun s => h _ _ (hx s)

end Rules

/-! ### What a run ends in -/

/-- What a run ends in, by whether it succeeds. -/
def EndsIn (x : EStateM ε σ α) (s : σ) (good : α → σ → Prop) (bad : σ → Prop) : Prop :=
  match x s with
  | .ok a s' => good a s'
  | .error _ s' => bad s'

theorem endsIn_bind {x : EStateM ε σ α} {f : α → EStateM ε σ β} {s : σ}
    {good : β → σ → Prop} {bad : σ → Prop} :
    EndsIn (x >>= f) s good bad ↔ EndsIn x s (fun a s' => EndsIn (f a) s' good bad) bad := by
  show (match EStateM.bind x f s with | .ok b s' => good b s' | .error _ s' => bad s') ↔ _
  unfold EndsIn EStateM.bind
  cases x s with
  | ok a s' => exact Iff.rfl
  | error e s' => exact Iff.rfl

theorem EndsIn.mono {x : EStateM ε σ α} {s : σ} {good good' : α → σ → Prop}
    {bad bad' : σ → Prop} (h : EndsIn x s good bad) (hgood : ∀ a s', good a s' → good' a s')
    (hbad : ∀ s', bad s' → bad' s') : EndsIn x s good' bad' := by
  unfold EndsIn at h ⊢
  cases hx : x s with
  | ok a s' =>
    rw [hx] at h
    exact hgood a s' h
  | error e s' =>
    rw [hx] at h
    exact hbad s' h

/-- What holds after a loop, and what each of its rounds has brought about for good. -/
theorem endsIn_forM {I : σ → Prop} {Q : α → σ → Prop} {f : α → EStateM ε σ Unit}
    {xs : List α} {s : σ}
    (hf : ∀ x ∈ xs, ∀ s, I s → EndsIn (f x) s (fun _ s' => I s' ∧ Q x s' ∧ ∀ y, Q y s → Q y s') I)
    (hI : I s) :
    EndsIn (xs.forM f) s (fun _ s' => I s' ∧ (∀ x ∈ xs, Q x s') ∧ ∀ y, Q y s → Q y s') I := by
  induction xs generalizing s with
  | nil => exact ⟨hI, fun _ h => absurd h List.not_mem_nil, fun _ h => h⟩
  | cons x rest ih =>
    rw [List.forall_mem_cons] at hf
    refine endsIn_bind.mpr ((hf.1 s hI).mono ?_ fun _ h => h)
    intro _ s₁ hfirst
    refine (ih hf.2 hfirst.1).mono ?_ fun _ h => h
    intro _ s' hrest
    refine ⟨hrest.1, ?_, fun y hy => hrest.2.2 y (hfirst.2.2 y hy)⟩
    rw [List.forall_mem_cons]
    exact ⟨hrest.2.2 x hfirst.2.1, hrest.2.1⟩

end Attest.Library.Fallible
