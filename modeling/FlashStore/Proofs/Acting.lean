import FlashStore.Proofs.Geometry
import FlashStore.Proofs.Programs

/-!
# Operations on a store

Rules for operations on a store over a lawful device. `Acts x s Q E` bounds both outcomes of `x`
by what is left to see of the store, its `View`: the memory and the fields that recovery rebuilds.
Write protection is not part of a view, so a property of views holds inside and outside of
`withUnlocked` alike. Along the way every operation keeps the store `Operable` and its blocks
where they are.
-/

namespace FlashStore

open LawfulFlash

/-- What a store reads and keeps in memory, apart from write protection. -/
structure View where
  word : Memory
  current : Side
  generation : Word
  cursor : Nat
  inService : Bool

/-- The view with another memory. -/
def View.reading (v : View) (m : Memory) : View := { v with word := m }

/-- The device reported the error. -/
def StoreError.FromDevice (e : StoreError) : Prop := ∃ e', e = .device e'

lemma StoreError.FromDevice.isDisruptive {e : StoreError} (h : e.FromDevice) :
    e.isDisruptive = true := by
  obtain ⟨e', rfl⟩ := h
  rfl

variable {δ : Type} [FlashDevice δ] {α β : Type}

/-- What is left to see of a store. -/
def Store.view (s : Store δ) : View := ⟨s.word, s.current, s.generation, s.cursor, s.inService⟩

namespace Store

variable [LawfulFlash δ]

/-- The blocks fit the device, the cursor is in the current one, and protection is lifted as long as
an operation needs it. -/
structure Operable (s : Store δ) : Prop where
  fits : s.placement.Fits (FlashDevice.pageSize δ).toNat (FlashDevice.capacity s.device).toNat
  unlocked : s.unlockDepth ≠ 0 → Unlocked s.device
  first_le : s.block.first ≤ s.cursor
  le_stop : s.cursor ≤ s.block.stop

lemma Operable.regular {s : Store δ} (hs : s.Operable) : s.placement.Regular :=
  hs.fits.regular pageSize_mod

/-- The second store is the first after so many programs and erases, at the same place. -/
structure Continues (k : Nat) (s s' : Store δ) : Prop where
  placement_eq : s'.placement = s.placement
  unlockDepth_eq : s'.unlockDepth = s.unlockDepth
  reaches : Reaches k s.device s'.device

namespace Continues

variable {j k : Nat} {s s' s'' : Store δ}

lemma refl (s : Store δ) : Continues 0 s s := ⟨rfl, rfl, reaches_refl _⟩

lemma trans (h : Continues j s s') (h' : Continues k s' s'') : Continues (j + k) s s'' :=
  ⟨h'.placement_eq.trans h.placement_eq, h'.unlockDepth_eq.trans h.unlockDepth_eq,
    reaches_trans h.reaches h'.reaches⟩

end Continues

end Store

variable [LawfulFlash δ]

/-- A device error is one that the device refuses with. -/
def Blames (e : StoreError) (d : δ) : Prop := ∀ e', e = .device e' → Refuses d e'

lemma Failed.blames {e : StoreError} {d : δ} (h : Failed e d) : Blames e d := by
  rintro e' rfl
  obtain ⟨e'', he, hr⟩ := h
  obtain rfl := StoreError.device.inj he
  exact hr

lemma Failed.fromDevice {e : StoreError} {d : δ} (h : Failed e d) : e.FromDevice :=
  h.imp fun _ he => he.1

/-- An operation ends well with the first property or fails with the second. Both speak of the
programs and erases done and of the view they leave. -/
def Acts (x : StoreM δ α) (s : Store δ) (Q : α → Nat → View → Prop)
    (E : StoreError → Nat → View → Prop) : Prop :=
  Ensures x s
    (fun a s' => s'.Operable ∧ ∃ k, s.Continues k s' ∧ Q a k s'.view)
    (fun e s' => s'.Operable ∧ ∃ k, s.Continues k s' ∧ Blames e s'.device ∧ E e k s'.view)

namespace Acts

variable {x : StoreM δ α} {s : Store δ} {Q Q' : α → Nat → View → Prop}
  {E E' : StoreError → Nat → View → Prop} {R : β → Nat → View → Prop}

lemma mono (h : Acts x s Q E) (hQ : ∀ a k v, Q a k v → Q' a k v)
    (hE : ∀ e k v, E e k v → E' e k v) : Acts x s Q' E' := by
  refine Ensures.mono h ?_ ?_
  · rintro a s' ⟨hs', k, hk, hq⟩
    exact ⟨hs', k, hk, hQ a k _ hq⟩
  · rintro e s' ⟨hs', k, hk, hb, he⟩
    exact ⟨hs', k, hk, hb, hE e k _ he⟩

lemma pure {a : α} (hs : s.Operable) (h : Q a 0 s.view) : Acts (Pure.pure a) s Q E :=
  Ensures.pure ⟨hs, 0, .refl s, h⟩

lemma throw {e : StoreError} (hs : s.Operable) (hb : ¬ e.FromDevice) (h : E e 0 s.view) :
    Acts (MonadExcept.throw e : StoreM δ α) s Q E :=
  Ensures.throw ⟨hs, 0, .refl s, fun e' he => absurd ⟨e', he⟩ hb, h⟩

/-- What the second part does is counted from where the first one stops. -/
lemma bind {f : α → StoreM δ β} (hx : Acts x s Q E)
    (hf : ∀ a s' k, s'.Operable → s.Continues k s' → Q a k s'.view →
      Acts (f a) s' (fun b j v => R b (k + j) v) (fun e j v => E e (k + j) v)) :
    Acts (x >>= f) s R E := by
  refine Ensures.bind hx ?_
  rintro a s' ⟨hs', k, hk, hq⟩
  refine Ensures.mono (hf a s' k hs' hk hq) ?_ ?_
  · rintro b s'' ⟨hs'', j, hj, hr⟩
    exact ⟨hs'', k + j, hk.trans hj, hr⟩
  · rintro e s'' ⟨hs'', j, hj, hb, he⟩
    exact ⟨hs'', k + j, hk.trans hj, hb, he⟩

lemma get_bind {f : Store δ → StoreM δ β} (h : Acts (f s) s R E) : Acts (get >>= f) s R E := h

/-- A change of what the store keeps in memory. -/
lemma modify_bind {g : Store δ → Store δ} {f : PUnit → StoreM δ β}
    (hc : s.Continues 0 (g s)) (h : Acts (f ⟨⟩) (g s) R E) : Acts (modify g >>= f) s R E := by
  show Ensures (f ⟨⟩) (g s) _ _
  refine Ensures.mono h ?_ ?_
  · rintro b s' ⟨hs', k, hk, hr⟩
    exact ⟨hs', k, (Nat.zero_add k) ▸ hc.trans hk, hr⟩
  · rintro e s' ⟨hs', k, hk, hb, he⟩
    exact ⟨hs', k, (Nat.zero_add k) ▸ hc.trans hk, hb, he⟩

lemma modify {g : Store δ → Store δ} {Q : PUnit → Nat → View → Prop} (hs : (g s).Operable)
    (hc : s.Continues 0 (g s)) (h : Q ⟨⟩ 0 (g s).view) : Acts (modify g) s Q E :=
  Ensures.modify ⟨hs, 0, hc, h⟩

lemma query_bind {f : Store δ → Except StoreError α} {g : α → StoreM δ β} {a : α}
    (hf : f s = .ok a) (h : Acts (g a) s R E) : Acts (Store.query f >>= g) s R E :=
  Ensures.query_bind hf h

lemma query {f : Store δ → Except StoreError α} {a : α} (hs : s.Operable) (hf : f s = .ok a)
    (h : Q a 0 s.view) : Acts (Store.query f) s Q E :=
  .intro_ok (by rw [Store.run_query, hf]) ⟨hs, 0, .refl s, h⟩

/-- Programs and erases under lifted protection change the device only. -/
lemma onDevice {x : ProgramM δ α} {Q : α → Nat → Memory → Prop} {E : Nat → Memory → Prop}
    (hs : s.Operable) (hx : Runs x s.device Q E) :
    Acts (Store.onDevice x) s
      (fun a k v => v = s.view.reading v.word ∧ Q a k v.word)
      (fun e k v => e.FromDevice ∧ v = s.view.reading v.word ∧ E k v.word) := by
  have hop : ∀ {d' : δ} {k : Nat}, Unlocked d' → Reaches k s.device d' →
      Store.Operable { s with device := d' } := by
    intro d' k hd' hk
    refine ⟨?_, fun _ => hd', hs.first_le, hs.le_stop⟩
    show s.placement.Fits _ (FlashDevice.capacity d').toNat
    rw [capacity_of_reaches hk]
    exact hs.fits
  refine Ensures.onDevice (Ensures.mono hx ?_ ?_)
  · rintro a d' ⟨hd', k, hk, hq⟩
    exact ⟨hop hd' hk, k, ⟨rfl, rfl, hk⟩, rfl, hq⟩
  · rintro e d' ⟨hd', k, hk, hf, he⟩
    exact ⟨hop hd' hk, k, ⟨rfl, rfl, hk⟩, hf.blames, hf.fromDevice, rfl, he⟩

end Acts

/-! ### Write protection -/

namespace Store

variable {s s' : Store δ} {k : Nat}

@[simp] lemma word_beginUnlocked (s : Store δ) : s.beginUnlocked.word = s.word := by
  show FlashDevice.readWord (if s.unlockDepth = 0 then _ else _) = FlashDevice.readWord s.device
  split
  · exact readWord_unlock _
  · rfl

@[simp] lemma word_endUnlocked (s : Store δ) : s.endUnlocked.word = s.word := by
  show FlashDevice.readWord (if s.unlockDepth = 1 then _ else _) = FlashDevice.readWord s.device
  split
  · exact readWord_lock _
  · rfl

@[simp] lemma view_beginUnlocked (s : Store δ) : s.beginUnlocked.view = s.view := by
  rw [view, word_beginUnlocked]
  rfl

@[simp] lemma view_endUnlocked (s : Store δ) : s.endUnlocked.view = s.view := by
  rw [view, word_endUnlocked]
  rfl

lemma reaches_beginUnlocked (s : Store δ) : Reaches 0 s.device s.beginUnlocked.device := by
  show Reaches 0 s.device (if s.unlockDepth = 0 then _ else _)
  split
  · exact reaches_unlock _
  · exact reaches_refl _

lemma reaches_endUnlocked (s : Store δ) : Reaches 0 s.device s.endUnlocked.device := by
  show Reaches 0 s.device (if s.unlockDepth = 1 then _ else _)
  split
  · exact reaches_lock _
  · exact reaches_refl _

lemma Operable.beginUnlocked (hs : s.Operable) : s.beginUnlocked.Operable where
  fits := by
    rw [capacity_of_reaches s.reaches_beginUnlocked]
    exact hs.fits
  unlocked _ := by
    show Unlocked (if s.unlockDepth = 0 then _ else _)
    split
    · exact unlocked_unlock _
    · rename_i h
      exact hs.unlocked h
  first_le := hs.first_le
  le_stop := hs.le_stop

lemma Operable.unlocked_beginUnlocked (hs : s.Operable) : Unlocked s.beginUnlocked.device :=
  hs.beginUnlocked.unlocked (Nat.succ_ne_zero _)

lemma capacity_beginUnlocked (s : Store δ) :
    FlashDevice.capacity s.beginUnlocked.device = FlashDevice.capacity s.device :=
  capacity_of_reaches s.reaches_beginUnlocked

lemma readWord_beginUnlocked (s : Store δ) :
    FlashDevice.readWord s.beginUnlocked.device = s.word := word_beginUnlocked s

lemma Operable.endUnlocked (hs : s.Operable) : s.endUnlocked.Operable where
  fits := by
    rw [capacity_of_reaches s.reaches_endUnlocked]
    exact hs.fits
  unlocked h := by
    rw [unlockDepth_endUnlocked] at h
    show Unlocked (if s.unlockDepth = 1 then _ else _)
    rw [if_neg (by omega)]
    exact hs.unlocked (by omega)
  first_le := hs.first_le
  le_stop := hs.le_stop

lemma Continues.endUnlocked (h : s.beginUnlocked.Continues k s') :
    s.Continues k s'.endUnlocked where
  placement_eq := h.placement_eq
  unlockDepth_eq := by
    rw [unlockDepth_endUnlocked, h.unlockDepth_eq, unlockDepth_beginUnlocked, Nat.add_sub_cancel]
  reaches := by
    have h' := reaches_trans (reaches_trans s.reaches_beginUnlocked h.reaches)
      s'.reaches_endUnlocked
    rwa [Nat.zero_add, Nat.add_zero] at h'

end Store

namespace Acts

variable {x : StoreM δ α} {s : Store δ} {Q : α → Nat → View → Prop}
  {E : StoreError → Nat → View → Prop}

/-- Lifting write protection around an operation does not show. -/
lemma withUnlocked (h : Acts x s.beginUnlocked Q E) : Acts (Store.withUnlocked x) s Q E := by
  refine Ensures.withUnlocked (Ensures.mono h ?_ ?_)
  · rintro a s' ⟨hs', k, hk, hq⟩
    exact ⟨hs'.endUnlocked, k, hk.endUnlocked, by rwa [Store.view_endUnlocked]⟩
  · rintro e s' ⟨hs', k, hk, hb, he⟩
    refine ⟨hs'.endUnlocked, k, hk.endUnlocked, ?_, by rwa [Store.view_endUnlocked]⟩
    intro e' he'
    show Refuses (if s'.unlockDepth = 1 then _ else _) e'
    split
    · exact refuses_lock (hb e' he')
    · exact hb e' he'

lemma withUnlocked_onDevice {x : ProgramM δ α} {Q : α → Nat → Memory → Prop}
    {E : Nat → Memory → Prop} (hs : s.Operable) (hx : Runs x s.beginUnlocked.device Q E) :
    Acts (Store.withUnlocked (Store.onDevice x)) s
      (fun a k v => v = s.view.reading v.word ∧ Q a k v.word)
      (fun e k v => e.FromDevice ∧ v = s.view.reading v.word ∧ E k v.word) := by
  have h := Acts.onDevice hs.beginUnlocked hx
  rw [Store.view_beginUnlocked] at h
  exact h.withUnlocked

/-- A failure part way puts the store out of service. -/
lemma suspendOnFailure (h : Acts x s Q E) :
    Acts (Store.suspendOnFailure x) s Q (fun e k v => ∃ v', E e k v' ∧
      v = { v' with inService := v'.inService && !e.isDisruptive }) := by
  refine Ensures.suspendOnFailure (Ensures.mono h (fun _ _ h => h) ?_)
  rintro e s' ⟨hs', k, hk, hb, he⟩
  exact ⟨⟨hs'.fits, hs'.unlocked, hs'.first_le, hs'.le_stop⟩, k,
    ⟨hk.placement_eq, hk.unlockDepth_eq, hk.reaches⟩, hb, s'.view, he, rfl⟩

end Acts

end FlashStore
