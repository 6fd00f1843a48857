import Mathlib.Order.WithBot
import Mathlib.Order.OrderDual
import Mathlib.Order.Lattice

/-! How much a store holds against a key.

What a trust store says about one key is nothing, that it is trusted, or that it
is revoked from some moment on; a revocation without a date holds from before
every moment. Ordered by how much is held against the key, these form a chain:
nothing, trusted, revoked late, revoked early, revoked always. Putting two
statements together is taking the larger one, and a store that is only ever
tightened is one whose standings only ever grow. -/
namespace Attest.Trust

/-- A missing date is `⊥`, before every moment. -/
inductive Standing (T : Type)
  | absent
  | trusted
  | revoked (moment : WithBot T)
deriving DecidableEq

namespace Standing
variable {T : Type}

/-- The place in the chain: an earlier revocation stands higher. -/
def rank : Standing T → WithBot (WithBot (OrderDual (WithBot T)))
  | absent => ⊥
  | trusted => WithBot.some ⊥
  | revoked moment => WithBot.some (WithBot.some (OrderDual.toDual moment))

theorem rank_injective : Function.Injective (@rank T) := by
  intro a b h
  cases a with
  | absent =>
    cases b with
    | absent => rfl
    | trusted => exact absurd h (WithBot.bot_ne_coe)
    | revoked m => exact absurd h (WithBot.bot_ne_coe)
  | trusted =>
    cases b with
    | absent => exact absurd h (WithBot.coe_ne_bot)
    | trusted => rfl
    | revoked m => exact absurd (WithBot.coe_injective h) (WithBot.bot_ne_coe)
  | revoked m =>
    cases b with
    | absent => exact absurd h (WithBot.coe_ne_bot)
    | trusted => exact absurd (WithBot.coe_injective h) (WithBot.coe_ne_bot)
    | revoked m' =>
      have := WithBot.coe_injective (WithBot.coe_injective h)
      rw [OrderDual.toDual.injective this]

variable [LinearOrder T]

instance : LinearOrder (Standing T) := LinearOrder.lift' rank rank_injective

theorem absent_le (s : Standing T) : absent ≤ s := by
  show rank absent ≤ rank s
  exact OrderBot.bot_le _

theorem trusted_le_revoked (m : WithBot T) : trusted ≤ revoked m := by
  show rank trusted ≤ rank (revoked m)
  exact WithBot.coe_le_coe.mpr (OrderBot.bot_le _)

theorem revoked_le_revoked {m m' : WithBot T} : revoked m ≤ revoked m' ↔ m' ≤ m := by
  show rank (revoked m) ≤ rank (revoked m') ↔ m' ≤ m
  simp only [rank, WithBot.coe_le_coe, OrderDual.toDual_le_toDual]

theorem not_trusted_le_absent : ¬ (trusted : Standing T) ≤ absent := by
  show ¬ rank (trusted : Standing T) ≤ rank absent
  simp [rank]

theorem not_revoked_le_absent (m : WithBot T) : ¬ revoked m ≤ absent := by
  show ¬ rank (revoked m) ≤ rank absent
  simp [rank]

theorem not_revoked_le_trusted (m : WithBot T) : ¬ revoked m ≤ trusted := by
  show ¬ rank (revoked m) ≤ rank trusted
  simp [rank]

/-- Above a revocation there is only a revocation, of a moment no later. -/
theorem revoked_le_iff {m : WithBot T} {s : Standing T} :
    revoked m ≤ s ↔ ∃ m', s = revoked m' ∧ m' ≤ m := by
  cases s with
  | absent => simp [not_revoked_le_absent]
  | trusted => simp [not_revoked_le_trusted]
  | revoked m' => simp [revoked_le_revoked]

end Standing

end Attest.Trust
