import Mathlib.Tactic.Common
import FlashStore.Store.Basic

/-!
# Outcomes of operations

An operation that fails still says which state it left behind. `Ensures x s Q E` bounds both
outcomes of running `x` in `s`: a success leaves a value and a state in `Q`, a failure an error and
a state in `E`. The rules below take a sequence of operations apart; with them no proof about a
sequence looks at its states one by one.
-/

namespace FlashStore

variable {ε σ α β : Type}

/-- Running an operation ends well with the first property or fails with the second. -/
def Ensures (x : EStateM ε σ α) (s : σ) (Q : α → σ → Prop) (E : ε → σ → Prop) : Prop :=
  match x.run s with
  | .ok a s' => Q a s'
  | .error e s' => E e s'

namespace Ensures

variable {x : EStateM ε σ α} {s : σ} {Q Q' : α → σ → Prop} {E E' : ε → σ → Prop}

lemma of_ok (h : Ensures x s Q E) {a : α} {s' : σ} (hx : x.run s = .ok a s') : Q a s' := by
  simpa only [Ensures, hx] using h

lemma of_error (h : Ensures x s Q E) {e : ε} {s' : σ} (hx : x.run s = .error e s') : E e s' := by
  simpa only [Ensures, hx] using h

lemma intro_ok {a : α} {s' : σ} (hx : x.run s = .ok a s') (h : Q a s') : Ensures x s Q E := by
  simpa only [Ensures, hx] using h

lemma intro_error {e : ε} {s' : σ} (hx : x.run s = .error e s') (h : E e s') :
    Ensures x s Q E := by
  simpa only [Ensures, hx] using h

lemma mono (h : Ensures x s Q E) (hQ : ∀ a s', Q a s' → Q' a s') (hE : ∀ e s', E e s' → E' e s') :
    Ensures x s Q' E' := by
  unfold Ensures at h ⊢
  cases hx : x.run s with
  | ok a s' => exact hQ a s' (by simpa only [hx] using h)
  | error e s' => exact hE e s' (by simpa only [hx] using h)

/-- An operation ends as its run says. -/
lemma self (x : EStateM ε σ α) (s : σ) :
    Ensures x s (fun a s' => x.run s = .ok a s') (fun e s' => x.run s = .error e s') := by
  unfold Ensures
  cases x.run s <;> rfl

/-- What is known of an operation by two bounds is known at once. -/
lemma and (h : Ensures x s Q E) (h' : Ensures x s Q' E') :
    Ensures x s (fun a s' => Q a s' ∧ Q' a s') (fun e s' => E e s' ∧ E' e s') := by
  unfold Ensures
  cases hx : x.run s with
  | ok a s' => exact ⟨h.of_ok hx, h'.of_ok hx⟩
  | error e s' => exact ⟨h.of_error hx, h'.of_error hx⟩

/-- Operations that run alike end alike. -/
lemma congr {y : EStateM ε σ α} {t : σ} (h : Ensures y t Q E) (hrun : x.run s = y.run t) :
    Ensures x s Q E := by
  unfold Ensures
  rw [hrun]
  exact h

lemma pure {a : α} (h : Q a s) : Ensures (Pure.pure a) s Q E := h

lemma throw {e : ε} (h : E e s) : Ensures (throw e : EStateM ε σ α) s Q E := h

lemma modify {f : σ → σ} {Q : PUnit → σ → Prop} {E : ε → σ → Prop} (h : Q ⟨⟩ (f s)) :
    Ensures (modify f : EStateM ε σ PUnit) s Q E := h

lemma get_bind {f : σ → EStateM ε σ α} (h : Ensures (f s) s Q E) : Ensures (get >>= f) s Q E := h

/-- A failure of the first operation ends the sequence, a success hands its value on. -/
lemma bind {f : α → EStateM ε σ β} {R : β → σ → Prop} (hx : Ensures x s Q E)
    (hf : ∀ a s', Q a s' → Ensures (f a) s' R E) : Ensures (x >>= f) s R E := by
  unfold Ensures
  rw [EStateM.run_bind]
  cases h : x.run s with
  | ok a s' => exact hf a s' (hx.of_ok h)
  | error e s' => exact hx.of_error h

/-- A failure of the first operation is handed to the second. -/
lemma tryCatch {h : ε → EStateM ε σ α} {E' : ε → σ → Prop} (hx : Ensures x s Q E)
    (hh : ∀ e s', E e s' → Ensures (h e) s' Q E') : Ensures (MonadExcept.tryCatch x h) s Q E' := by
  cases hxs : x.run s with
  | ok a s' =>
    have hrun : (EStateM.tryCatch x h).run s = .ok a s' := by
      simp only [EStateM.run, EStateM.tryCatch, show x s = _ from hxs]
    exact intro_ok hrun (hx.of_ok hxs)
  | error e s' =>
    have hrun : (EStateM.tryCatch x h).run s = (h e).run s' := by
      simp only [EStateM.run, EStateM.tryCatch, show x s = _ from hxs]
      rfl
    show match (EStateM.tryCatch x h).run s with
      | .ok a s' => Q a s'
      | .error e s' => E' e s'
    rw [hrun]
    exact hh e s' (hx.of_error hxs)

lemma adaptExcept {ε' : Type} {f : ε → ε'} {E' : ε' → σ → Prop}
    (hx : Ensures x s Q fun e s' => E' (f e) s') :
    Ensures (EStateM.adaptExcept f x) s Q E' := by
  unfold Ensures
  rw [EStateM.run_adaptExcept]
  cases hrun : x.run s with
  | ok a s' => exact hx.of_ok hrun
  | error e s' => exact hx.of_error hrun

/-! ### Operations of a store -/

section

variable {δ : Type} {s : Store δ} {x : StoreM δ α} {Q : α → Store δ → Prop}
  {E : StoreError → Store δ → Prop} {f : Store δ → Except StoreError α}

lemma query (hok : ∀ a, f s = .ok a → Q a s) (herror : ∀ e, f s = .error e → E e s) :
    Ensures (Store.query f) s Q E := by
  unfold Ensures
  rw [Store.run_query]
  cases h : f s with
  | ok a => exact hok a h
  | error e => exact herror e h

/-- A question that is answered does not show in what follows. -/
lemma query_bind {g : α → StoreM δ β} {a : α} {R : β → Store δ → Prop} (hf : f s = .ok a)
    (h : Ensures (g a) s R E) : Ensures (Store.query f >>= g) s R E :=
  h.congr (by rw [EStateM.run_bind, Store.run_query, hf])

lemma onDevice {y : ProgramM δ α}
    (hy : Ensures y s.device (fun a d => Q a { s with device := d })
      fun e d => E e { s with device := d }) :
    Ensures (Store.onDevice y) s Q E := by
  unfold Ensures
  rw [Store.run_onDevice]
  cases hrun : y.run s.device with
  | ok a d => exact hy.of_ok hrun
  | error e d => exact hy.of_error hrun

lemma suspendOnFailure (hx : Ensures x s Q fun e s' =>
      E e { s' with inService := s'.inService && !e.isDisruptive }) :
    Ensures (Store.suspendOnFailure x) s Q E := by
  unfold Ensures
  rw [Store.run_suspendOnFailure]
  cases hrun : x.run s with
  | ok a s' => exact hx.of_ok hrun
  | error e s' => exact hx.of_error hrun

lemma withUnlocked [FlashDevice δ] (hx : Ensures x s.beginUnlocked
      (fun a s' => Q a s'.endUnlocked) fun e s' => E e s'.endUnlocked) :
    Ensures (Store.withUnlocked x) s Q E := by
  unfold Ensures
  rw [Store.run_withUnlocked]
  cases hrun : x.run s.beginUnlocked with
  | ok a s' => exact hx.of_ok hrun
  | error e s' => exact hx.of_error hrun

end

end Ensures

end FlashStore
