import FlashStore.Proofs.Persisted

/-!
# Consistency of a store with flash

`Tracked p m side g cursor` says that what a store keeps in memory agrees with flash: the block it
takes for current is the one in use, its records end at the cursor, and nothing is written behind
them. `Consistent` asks for distinct records as well; it is the invariant of a store in service,
whose contents are the persisted ones.
-/

namespace FlashStore

variable {m m' : Memory} {p : Placement} {side : Side} {g : Word} {cursor : Nat}
  {rs pre post : List Record} {r : Record}

/-- What a store keeps in memory agrees with flash. -/
structure Tracked (p : Placement) (m : Memory) (side : Side) (g : Word) (cursor : Nat) : Prop where
  newest : p.newest m = some (side, g)
  linked : Linked m (p.block side).stop (p.block side).first (recordsOf m (p.block side)) cursor
  erased : ∀ i, cursor ≤ i → i < (p.block side).stop → i % 4 = 0 → m i = Word.erased

/-- A store in service is tracked, and no value is stored twice. -/
structure Consistent (p : Placement) (m : Memory) (side : Side) (g : Word) (cursor : Nat) : Prop
    extends Tracked p m side g cursor where
  distinct : Distinct (recordsOf m (p.block side))

/-- How a chain ends at the cursor of a consistent store. -/
def endAt (stop cursor : Nat) : Stop := if cursor < stop then .vacant cursor else .full

@[simp] lemma requireIntact_endAt (rs : List Record) (stop cursor : Nat) :
    (Chain.mk rs (endAt stop cursor)).requireIntact = .ok () := by
  rw [Chain.requireIntact_eq_ok_iff]
  intro a
  simp only [endAt]
  split <;> simp

lemma recordAt_endAt {stop : Nat} (hc : cursor % 4 = 0)
    (he : ∀ i, cursor ≤ i → i < stop → i % 4 = 0 → m i = Word.erased) :
    recordAt m stop cursor = .error (endAt stop cursor) := by
  by_cases h : cursor < stop
  · rw [recordAt_of_vacant h (he _ (Nat.le_refl _) h hc), endAt, if_pos h]
  · rw [recordAt_of_le (by omega), endAt, if_neg h]

namespace Tracked

/-- Records that are linked up to an erased rest of the block in use are tracked. -/
lemma intro (hp : p.Regular) (hn : p.newest m = some (side, g))
    (hl : Linked m (p.block side).stop (p.block side).first rs cursor)
    (he : ∀ i, cursor ≤ i → i < (p.block side).stop → i % 4 = 0 → m i = Word.erased) :
    Tracked p m side g cursor ∧ recordsOf m (p.block side) = rs := by
  have hrec : recordsOf m (p.block side) = rs := by
    rw [recordsOf, Chain.ofBlock,
      hl.scan_eq (recordAt_endAt (hl.end_mod (hp.first_mod side)) he)]
  exact ⟨⟨hn, hrec ▸ hl, he⟩, hrec⟩

variable (h : Tracked p m side g cursor)
include h

lemma first_le : (p.block side).first ≤ cursor := h.linked.le

lemma persisted_eq : p.persisted m = entries m (survivors (recordsOf m (p.block side))) :=
  Placement.persisted_of_newest h.newest

variable (hp : p.Regular)
include hp

lemma cursor_mod : cursor % 4 = 0 := h.linked.end_mod (hp.first_mod side)

lemma cursor_le : cursor ≤ (p.block side).stop := by
  have := hp.first_add_le side
  exact h.linked.end_le (by omega)

lemma recordAt_cursor :
    recordAt m (p.block side).stop cursor = .error (endAt (p.block side).stop cursor) :=
  recordAt_endAt (h.cursor_mod hp) h.erased

lemma chain_eq : Chain.ofBlock m (p.block side) =
    ⟨recordsOf m (p.block side), endAt (p.block side).stop cursor⟩ :=
  h.linked.scan_eq (h.recordAt_cursor hp)

/-- A change of the records that leaves them linked leaves the store tracked. -/
lemma of_agreeOutside (hout : AgreeOutside (p.block side).first cursor m m')
    (hl : Linked m' (p.block side).stop (p.block side).first rs cursor) :
    Tracked p m' side g cursor ∧ recordsOf m' (p.block side) = rs := by
  refine Tracked.intro hp ?_ hl fun i h₁ h₂ h₃ => (hout i (by omega)).trans (h.erased i h₁ h₂ h₃)
  rw [← h.newest]
  exact Placement.newest_of_agreeOutside hp (hout.mono (Nat.le_refl _) (h.cursor_le hp))

end Tracked

namespace Consistent

/-- Distinct records that are linked up to an erased rest of the block in use are consistent. -/
lemma intro (hp : p.Regular) (hn : p.newest m = some (side, g))
    (hl : Linked m (p.block side).stop (p.block side).first rs cursor)
    (he : ∀ i, cursor ≤ i → i < (p.block side).stop → i % 4 = 0 → m i = Word.erased)
    (hd : Distinct rs) : Consistent p m side g cursor ∧ recordsOf m (p.block side) = rs := by
  obtain ⟨ht, hrec⟩ := Tracked.intro hp hn hl he
  exact ⟨⟨ht, hrec ▸ hd⟩, hrec⟩

lemma persisted_eq_live (h : Consistent p m side g cursor) :
    p.persisted m = entries m ((recordsOf m (p.block side)).filter Record.isLive) := by
  rw [h.persisted_eq, h.distinct.survivors_eq]

end Consistent

end FlashStore
