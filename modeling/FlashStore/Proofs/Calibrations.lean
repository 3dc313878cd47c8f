import FlashStore.Proofs.LastSaved
import FlashStore.Proofs.ReadPaths

/-!
# Saved calibrations

A calibration is saved one coefficient after another, each unless its very bits are stored already.
A write changes the value under its own id only, so the coefficients still to come stay as stale as
they were at first, wherever a compaction in between has moved them. That makes the number of
writes the number of coefficients that were stale before any of them.
-/

namespace FlashStore

open LawfulFlash Store

namespace Calibration

/-! ### Stale values -/

/-- What is stored for a coefficient is missing, of a wrong length or of other bits. -/
def isStale (cal : Calibration) (c : Coefficient) : Option (List UInt8) → Bool
  | none => true
  | some data => data.length ≠ 4 || Word.ofBytes data ≠ (cal c).bits

lemma isStale_eq (cal : Calibration) (c : Coefficient) (stored : Option (List UInt8)) :
    cal.isStale c stored = decide (stored ≠ some (cal c).bits.toBytes) := by
  cases stored with
  | none => rfl
  | some data =>
    rw [isStale, Bool.eq_iff_iff]
    simp only [Bool.or_eq_true, decide_eq_true_eq]
    constructor
    · rintro (hlength | hbits) h
      · rw [Option.some.inj h, Word.length_toBytes] at hlength
        exact hlength rfl
      · rw [Option.some.inj h, Word.ofBytes_toBytes] at hbits
        exact hbits rfl
    · intro hne
      by_cases hlength : data.length = 4
      · refine .inr fun hbits => hne ?_
        match data, hlength with
        | [b₀, b₁, b₂, b₃], _ => rw [← hbits, Word.toBytes_ofBytes]
      · exact .inl hlength

/-- The coefficients of a list whose stored values are stale. -/
def stale (cal : Calibration) (values : Values) (cs : List Coefficient) : Nat :=
  cs.countP fun c => cal.isStale c (values c.id)

lemma stale_cons (cal : Calibration) (values : Values) (c : Coefficient) (cs : List Coefficient) :
    cal.stale values (c :: cs) =
      cal.stale values cs + if cal.isStale c (values c.id) = true then 1 else 0 :=
  List.countP_cons

/-- The value of one coefficient does not make the others stale. -/
lemma stale_update (cal : Calibration) (values : Values) {c : Coefficient} {cs : List Coefficient}
    (hc : c ∉ cs) (data : Option (List UInt8)) :
    cal.stale (Function.update values c.id data) cs = cal.stale values cs := by
  refine List.countP_congr fun c' hc' => ?_
  have hne : c'.id ≠ c.id := fun hid => hc (Coefficient.id_injective hid ▸ hc')
  rw [Function.update_of_ne hne]

variable {δ : Type} [FlashDevice δ] {s : Store δ} {cs : List Coefficient}

/-! ### Loading -/

variable [LawfulFlash δ]

/-- What is stored already is not written again. -/
lemma run_saveEach_of_stored (cal : Calibration) (hs : s.Serving)
    (h : ∀ c ∈ cs, s.values c.id = some (cal c).bits.toBytes) :
    (cal.saveEach cs).run s = .ok 0 s := by
  induction cs with
  | nil => rfl
  | cons c cs ih =>
    have hfirst := (hs.saves_updateWord c.id (cal c).bits).run_of_stored (h c List.mem_cons_self)
    have hrest := ih fun c' hc' => h c' (List.mem_cons_of_mem _ hc')
    rw [saveEach, EStateM.run_bind, hfirst]
    dsimp only
    rw [EStateM.run_bind, hrest]
    rfl

/-- Each coefficient of the list is assigned, and those that were stale are counted. The induction
is on the list: to the rest of it the store after the first write is as stale as the one before. -/
lemma ensures_saveEach (cal : Calibration) (hs : s.Ready) (hcs : cs.Nodup) :
    Ensures (cal.saveEach cs) s
      (fun n s' => n = cal.stale s.values cs ∧
        s.Becomes (assign (cs.map fun c => (c.id, some (cal c).bits.toBytes)) s.values) s')
      (fun e _ => e = .store .full) := by
  induction cs generalizing s with
  | nil => exact .pure ⟨rfl, hs.becomes_self⟩
  | cons c cs ih =>
    obtain ⟨hc, hcs⟩ := List.nodup_cons.1 hcs
    refine Ensures.bind (Ensures.mono
      ((hs.serving.saves_updateWord c.id (cal c).bits).ensures hs) (fun _ _ h => h) ?_) ?_
    · rintro _ _ ⟨-, ⟨e, rfl, hcheck⟩, -⟩
      have hid : isUsableId c.id = true := Parameter.isUsableId_id (.calibration c)
      rw [Contents.eq_full_of_checkPut hid (Nat.le_refl _) hcheck]
    · rintro written s₁ ⟨rfl, -, h₁⟩
      refine Ensures.bind (ih h₁.ready hcs) ?_
      rintro n s' ⟨rfl, h'⟩
      refine .pure ⟨?_, ?_⟩
      · rw [h₁.values_eq, stale_update cal s.values hc, stale_cons, isStale_eq]
      · rw [List.map_cons, assign_cons, ← h₁.values_eq]
        exact h₁.trans h'

/-- A calibration that was saved is loaded, and saving it again writes nothing. -/
lemma saved_of_becomes (cal : Calibration) {s' : Store δ}
    (h : s.Becomes (assign (Coefficient.all.map fun c => (c.id, some (cal c).bits.toBytes))
      s.values) s') :
    (∀ model, load model s' = cal) ∧ cal.save.run s' = .ok 0 s' ∧
      ∀ id, (∀ c : Coefficient, c.id ≠ id) → s'.values id = s.values id := by
  have hvalues (c : Coefficient) : s'.values c.id = some (cal c).bits.toBytes := by
    rw [h.values_eq]
    exact assign_coefficients (fun c => some (cal c).bits.toBytes) s.values c
  have hs' := h.ready.serving
  refine ⟨fun model => ?_, run_saveEach_of_stored cal hs' fun c _ => hvalues c, fun id hid => ?_⟩
  · funext c
    rw [load, hs'.loadWord_of_some (hvalues c)]
  · rw [h.values_eq]
    refine assign_of_ne (fun entry hentry => ?_) s.values
    obtain ⟨c, -, rfl⟩ := List.mem_map.1 hentry
    exact hid c

/-- What was saved compares equal to what is loaded for any model, unless a coefficient is no
number: its bits are loaded like those of any other, but it equals nothing. -/
theorem numericEq_load_iff (cal : Calibration) (hs : s.Ready) {n : Nat} {s' : Store δ}
    (h : cal.save.run s = .ok n s') (model : Model) :
    (load model s').numericEq cal = true ↔ ∀ c, (cal c).isNaN = false := by
  obtain ⟨-, hbecomes⟩ := (ensures_saveEach cal hs Coefficient.all_nodup).of_ok h
  obtain ⟨hload, -⟩ := saved_of_becomes cal hbecomes
  rw [hload model, numericEq_self_iff]

end Calibration

/-! ### Sessions -/

namespace Session

variable {size page : Nat} [NorFlash.WordPages page]

end Session

end FlashStore
