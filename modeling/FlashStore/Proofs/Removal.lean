import FlashStore.Proofs.Survivors

/-!
# Removing linked records

Clearing a record touches its payload and its id, so the records around it stay linked and keep
their entries. Cut short, it has touched the payload only and all records are still there.
-/

namespace FlashStore

variable {m m' : Memory} {stop a z k : Nat} {r : Record} {rs pre post : List Record}

lemma agreeOutside_clearing (m : Memory) (hk : k ≤ r.wordCount) :
    AgreeOutside r.payloadAddress r.stop m
      (writeWords m r.payloadAddress (List.replicate k 0)) := by
  refine (agreeOutside_writeWords m _ _).mono (Nat.le_refl _) ?_
  rw [List.length_replicate, ← r.payload_stop]
  omega

@[simp] lemma cleared_address (m : Memory) (r : Record) : cleared m r r.address = removedId :=
  Function.update_self ..

lemma cleared_of_ne (m : Memory) (r : Record) {i : Nat} (hi : i ≠ r.address) :
    cleared m r i = writeWords m r.payloadAddress (List.replicate r.wordCount 0) i :=
  Function.update_of_ne hi ..

lemma agreeOutside_cleared (m : Memory) (r : Record) :
    AgreeOutside r.address r.stop m (cleared m r) := by
  intro i hi
  have hpay := r.address_add_eight
  have hstop := r.payload_stop
  rw [cleared_of_ne m r (by omega)]
  exact agreeOutside_clearing m (Nat.le_refl _) i (by omega)

@[simp] lemma cleared_lengthAddress (m : Memory) (r : Record) :
    cleared m r (r.address + 4) = m (r.address + 4) := by
  have hpay := r.address_add_eight
  rw [cleared_of_ne m r (by omega)]
  exact writeWords_of_lt m _ (by omega)

namespace Linked

/-- Linked records hold the same wherever the words between their ends are the same. -/
lemma entries_congr (h : Linked m stop a rs z) (hm : AgreeOn a z m m') :
    entries m' (survivors rs) = entries m (survivors rs) := by
  refine FlashStore.entries_congr fun r hr => ?_
  obtain ⟨-, h₁, h₂⟩ := h.of_mem ((survivors_sublist _).subset hr)
  have hpay := r.address_add_eight
  exact fun i h₃ h₄ => hm i (by omega) (by omega)

/-- The other records stand apart from one of them. -/
lemma separated (h : Linked m stop a (pre ++ r :: post) z) :
    ∀ r' ∈ pre ++ post, r'.stop ≤ r.address ∨ r.stop ≤ r'.address := by
  obtain ⟨-, hrest, hcross⟩ := List.pairwise_append.1 h.pairwise
  intro r' hr'
  rcases List.mem_append.1 hr' with hr' | hr'
  · exact Or.inl (hcross r' hr' r List.mem_cons_self)
  · exact Or.inr (List.rel_of_pairwise_cons hrest hr')

/-- A change of the payload of a record leaves all records linked. -/
lemma congr_payload (h : Linked m stop a (pre ++ r :: post) z)
    (hm : AgreeOutside r.payloadAddress r.stop m m') :
    Linked m' stop a (pre ++ r :: post) z := by
  have hpay := r.address_add_eight
  have hsep := h.separated
  refine h.congr fun r' hr' => ?_
  have hpay' := r'.address_add_eight
  have hend' := r'.payload_stop
  rcases List.mem_append.1 hr' with hr' | hr'
  · have := hsep r' (List.mem_append_left _ hr')
    exact ⟨hm _ (by omega), hm _ (by omega)⟩
  · rcases List.mem_cons.1 hr' with rfl | hr'
    · exact ⟨hm _ (by omega), hm _ (by omega)⟩
    · have := hsep r' (List.mem_append_right _ hr')
      exact ⟨hm _ (by omega), hm _ (by omega)⟩

/-- A change of a record leaves the entries of the others. -/
lemma entries_eq (h : Linked m stop a (pre ++ r :: post) z)
    (hm : AgreeOutside r.address r.stop m m') (hrs : ∀ r' ∈ rs, r' ∈ pre ++ post) :
    entries m' rs = entries m rs := by
  refine FlashStore.entries_congr fun r' hr' => ?_
  have hsep := h.separated r' (hrs r' hr')
  have hpay := r'.address_add_eight
  have hstop := r'.payload_stop
  exact hm.agreeOn (by omega)

/-- Clearing a record leaves its place and the other records. -/
lemma cleared (h : Linked m stop a (pre ++ r :: post) z) (hr : r.WellFormed) :
    Linked (cleared m r) stop a (pre ++ r.removed :: post) z := by
  have hsep := h.separated
  have hout := agreeOutside_cleared m r
  obtain ⟨y, hpre, hrec, hpost⟩ := linked_append.1 h
  have haddr : r.address = y := by rw [(recordAt_eq_ok_iff.1 hrec).1]
  have hlen : r.length = m (r.address + 4) := by
    rw [haddr]
    exact congrArg Record.length (recordAt_eq_ok_iff.1 hrec).1
  have hstop := (recordAt_eq_ok_iff.1 hrec).2.2.2.2
  have hapart : ∀ r' ∈ pre ++ post, FlashStore.cleared m r r'.address = m r'.address ∧
      FlashStore.cleared m r (r'.address + 4) = m (r'.address + 4) := by
    intro r' hr'
    have hside := hsep r' hr'
    have hpay := r'.address_add_eight
    have hend := r'.payload_stop
    exact ⟨hout _ (by omega), hout _ (by omega)⟩
  refine linked_append.2 ⟨y, hpre.congr fun r' hr' => hapart r' (List.mem_append_left _ hr'), ?_,
    hpost.congr fun r' hr' => hapart r' (List.mem_append_right _ hr')⟩
  rw [← haddr, recordAt_eq_ok_iff, cleared_address, cleared_lengthAddress, ← hlen]
  have hid : r.removed.id ≠ vacantId := by
    rw [Record.id_removed]
    decide
  exact ⟨rfl, hid, hr.length_ne_zero, hr.length_ne_erased, hstop⟩

/-- The survivors of records one of which is removed are others. -/
lemma mem_of_mem_survivors_removed {x : Record}
    (hx : x ∈ survivors (pre ++ r.removed :: post)) : x ∈ pre ++ post := by
  have hlive := isLive_of_mem_survivors hx
  have hmem := (survivors_sublist _).subset hx
  rcases List.mem_append.1 hmem with hmem | hmem
  · exact List.mem_append_left _ hmem
  · rcases List.mem_cons.1 hmem with rfl | hmem
    · simp at hlive
    · exact List.mem_append_right _ hmem

/-- Clearing a superseded record keeps the entries of the survivors. -/
lemma entries_cleared_superseded (h : Linked m stop a (pre ++ r :: post) z)
    (hs : isSuperseded r post = true) :
    entries (FlashStore.cleared m r) (survivors (pre ++ r.removed :: post)) =
      entries m (survivors (pre ++ r :: post)) := by
  rw [← survivors_removed hs]
  exact h.entries_eq (agreeOutside_cleared m r) fun x hx => mem_of_mem_survivors_removed hx

/-- So does any other change of its payload. -/
lemma entries_superseded_congr (h : Linked m stop a (pre ++ r :: post) z)
    (hs : isSuperseded r post = true) (hm : AgreeOutside r.payloadAddress r.stop m m') :
    entries m' (survivors (pre ++ r :: post)) = entries m (survivors (pre ++ r :: post)) := by
  have hpay := r.address_add_eight
  rw [← survivors_removed hs]
  exact h.entries_eq (hm.mono (by omega) (Nat.le_refl _)) fun x hx =>
    mem_of_mem_survivors_removed hx

end Linked

end FlashStore
