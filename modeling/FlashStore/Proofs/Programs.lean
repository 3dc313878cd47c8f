import FlashStore.Proofs.Encoding
import FlashStore.Proofs.LawfulFlash
import FlashStore.Record.Program

/-!
# Programs on a lawful device

What sequences of programs and erases make of the memory of a lawful device, and what they leave
behind if the device fails on the way. A sequence of words is cut at one of its words, a wipe after
one of its pages; a record that is cut has no id yet, and one whose removal is cut still has its id.
-/

namespace FlashStore

open LawfulFlash

variable {δ : Type} [FlashDevice δ] [LawfulFlash δ] {α β : Type}

/-- The error comes from a device that refuses. -/
def Failed (e : StoreError) (d : δ) : Prop := ∃ e', e = .device e' ∧ Refuses d e'

/-- Programs and erases end well with the first property, or the device fails with the second.
Both speak of the programs and erases done and of the memory they leave. -/
def Runs (x : ProgramM δ α) (d : δ) (Q : α → Nat → Memory → Prop) (E : Nat → Memory → Prop) :
    Prop :=
  Ensures x d
    (fun a d' => Unlocked d' ∧ ∃ k, Reaches k d d' ∧ Q a k (FlashDevice.readWord d'))
    (fun e d' => Unlocked d' ∧ ∃ k, Reaches k d d' ∧ Failed e d' ∧ E k (FlashDevice.readWord d'))

namespace Runs

variable {x : ProgramM δ α} {d : δ} {Q Q' : α → Nat → Memory → Prop} {E E' : Nat → Memory → Prop}

lemma mono (h : Runs x d Q E) (hQ : ∀ a k m, Q a k m → Q' a k m) (hE : ∀ k m, E k m → E' k m) :
    Runs x d Q' E' := by
  refine Ensures.mono h ?_ ?_
  · rintro a d' ⟨hu, k, hk, hq⟩
    exact ⟨hu, k, hk, hQ a k _ hq⟩
  · rintro e d' ⟨hu, k, hk, hf, he⟩
    exact ⟨hu, k, hk, hf, hE k _ he⟩

lemma pure {a : α} (hd : Unlocked d) (h : Q a 0 (FlashDevice.readWord d)) :
    Runs (Pure.pure a) d Q E :=
  Ensures.pure ⟨hd, 0, reaches_refl d, h⟩

lemma get_bind {f : δ → ProgramM δ β} {R : β → Nat → Memory → Prop} (h : Runs (f d) d R E) :
    Runs (get >>= f) d R E := h

/-- What the second part does is counted from where the first one stops. -/
lemma bind {f : α → ProgramM δ β} {R : β → Nat → Memory → Prop} (hx : Runs x d Q E)
    (hf : ∀ a d' k, Unlocked d' → Reaches k d d' → Q a k (FlashDevice.readWord d') →
      Runs (f a) d' (fun b j m => R b (k + j) m) (fun j m => E (k + j) m)) :
    Runs (x >>= f) d R E := by
  refine Ensures.bind hx ?_
  rintro a d' ⟨hu, k, hk, hq⟩
  refine Ensures.mono (hf a d' k hu hk hq) ?_ ?_
  · rintro b d'' ⟨hu', j, hj, hr⟩
    exact ⟨hu', k + j, reaches_trans hk hj, hr⟩
  · rintro e d'' ⟨hu', j, hj, hfail, he⟩
    exact ⟨hu', k + j, reaches_trans hk hj, hfail, he⟩

end Runs

/-! ### Words -/

/-- A program that only clears bits reads back, or changes nothing. -/
lemma runs_programVerified {d : δ} {a : Nat} {w : Word} (hd : Unlocked d) (ha : a % 4 = 0)
    (hs : a + 4 ≤ (FlashDevice.capacity d).toNat) (hw : FlashDevice.readWord d a &&& w = w) :
    Runs (programVerified a w) d
      (fun _ k m => k = 1 ∧ m = Function.update (FlashDevice.readWord d) a w)
      (fun k m => k = 0 ∧ m = FlashDevice.readWord d) := by
  have h := ensures_programWord w hd ha hs hw
  unfold Runs Ensures
  rw [run_programVerified]
  cases hx : (FlashDevice.programWord a w).run d with
  | ok u d' =>
    obtain ⟨hu, hr, hm⟩ := h.of_ok hx
    rw [hw] at hm
    have hread : FlashDevice.readWord d' a = w := by rw [hm, Function.update_self]
    simp only [hread, if_true]
    exact ⟨hu, 1, hr, rfl, hm⟩
  | error e d' =>
    obtain ⟨hu, hr, hf, hm⟩ := h.of_error hx
    exact ⟨hu, 0, hr, ⟨e, rfl, hf⟩, rfl, hm⟩

/-- Two erased words are programmed, the second one first. -/
lemma runs_programPair (v w : Word) {d : δ} {a : Nat} (hd : Unlocked d) (ha : a % 4 = 0)
    (hs : a + 8 ≤ (FlashDevice.capacity d).toNat) (hv : FlashDevice.readWord d a = Word.erased)
    (hw : FlashDevice.readWord d (a + 4) = Word.erased) :
    Runs (do programVerified (a + 4) w; programVerified a v) d
      (fun _ k m => k = 2 ∧ m = writeWords (FlashDevice.readWord d) a [v, w])
      (fun k m => k = 0 ∧ m = FlashDevice.readWord d ∨
        k = 1 ∧ m = Function.update (FlashDevice.readWord d) (a + 4) w) := by
  have hne : a ≠ a + 4 := by omega
  have hsecond := runs_programVerified (a := a + 4) (w := w) hd (by omega) (by omega)
    (by rw [hw, Word.erased_and])
  refine Runs.bind (hsecond.mono (fun _ _ _ h => h) ?_) ?_
  · intro k m h
    exact Or.inl h
  · rintro _ d' k hd' hk ⟨rfl, hm⟩
    have hcap := capacity_of_reaches hk
    have hfirst := runs_programVerified (w := v) hd' ha (by rw [hcap]; omega)
      (by rw [hm, Function.update_of_ne hne, hv, Word.erased_and])
    refine hfirst.mono ?_ ?_
    · rintro _ j m ⟨rfl, rfl⟩
      refine ⟨rfl, ?_⟩
      rw [hm, writeWords_cons, writeWords_cons, writeWords_nil, Function.update_comm hne]
    · rintro j m ⟨rfl, rfl⟩
      exact Or.inr ⟨rfl, hm⟩

/-- Words are programmed in order, and a failure stops between two of them. -/
lemma runs_programWords (ws : List Word) {d : δ} {a : Nat} (hd : Unlocked d) (ha : a % 4 = 0)
    (hs : a + 4 * ws.length ≤ (FlashDevice.capacity d).toNat)
    (hw : ∀ i (hi : i < ws.length), FlashDevice.readWord d (a + 4 * i) &&& ws[i] = ws[i]) :
    Runs (programWords a ws) d
      (fun _ k m => k = ws.length ∧ m = writeWords (FlashDevice.readWord d) a ws)
      (fun k m => k < ws.length ∧ m = writeWords (FlashDevice.readWord d) a (ws.take k)) := by
  induction ws generalizing d a with
  | nil => exact Runs.pure hd ⟨rfl, rfl⟩
  | cons w ws ih =>
    rw [programWords_cons]
    simp only [List.length_cons] at hs
    have hw₀ : FlashDevice.readWord d a &&& w = w := hw 0 (Nat.succ_pos _)
    have h₀ := runs_programVerified hd ha (by omega) hw₀
    refine Runs.bind (h₀.mono (fun _ _ _ h => h) ?_) ?_
    · rintro k m ⟨rfl, rfl⟩
      exact ⟨Nat.succ_pos _, rfl⟩
    · rintro _ d' k hd' hk ⟨rfl, hm⟩
      have hcap := capacity_of_reaches hk
      have hw' : ∀ i (hi : i < ws.length),
          FlashDevice.readWord d' (a + 4 + 4 * i) &&& ws[i] = ws[i] := by
        intro i hi
        have h := hw (i + 1) (Nat.succ_lt_succ hi)
        have ha' : a + 4 * (i + 1) = a + 4 + 4 * i := by omega
        rw [hm, Function.update_of_ne (by omega), ← ha']
        exact h
      refine (ih hd' (by omega) (by rw [hcap]; omega) hw').mono ?_ ?_
      · rintro _ j m ⟨rfl, rfl⟩
        exact ⟨Nat.add_comm _ _, by rw [hm, writeWords_cons]⟩
      · rintro j m ⟨hj, rfl⟩
        refine ⟨by simp only [List.length_cons]; omega, ?_⟩
        rw [hm, Nat.add_comm 1 j, List.take_succ_cons, writeWords_cons]

/-! ### Blocks -/

/-- An erase wipes its page, or changes nothing. -/
lemma runs_erasePage {d : δ} {a : Nat} (hd : Unlocked d)
    (ha : a % (FlashDevice.pageSize δ).toNat = 0)
    (hs : a + (FlashDevice.pageSize δ).toNat ≤ (FlashDevice.capacity d).toNat) :
    Runs (EStateM.adaptExcept StoreError.device (FlashDevice.erasePage (δ := δ) a)) d
      (fun _ k m => k = 1 ∧
        m = wiped (FlashDevice.readWord d) a (a + (FlashDevice.pageSize δ).toNat))
      (fun k m => k = 0 ∧ m = FlashDevice.readWord d) := by
  have h := ensures_erasePage hd ha hs
  refine Ensures.adaptExcept (h.mono ?_ ?_)
  · rintro u d' ⟨hu, hr, hm⟩
    exact ⟨hu, 1, hr, rfl, hm⟩
  · rintro e d' ⟨hu, hr, hf, hm⟩
    exact ⟨hu, 0, hr, ⟨e, rfl, hf⟩, rfl, hm⟩

lemma runs_erasePages (base n i : Nat) {d : δ} (hd : Unlocked d)
    (hbase : base % (FlashDevice.pageSize δ).toNat = 0)
    (hs : base + (FlashDevice.pageSize δ).toNat * (i + n) ≤ (FlashDevice.capacity d).toNat) :
    Runs (((List.range' i n).map fun i => base + (FlashDevice.pageSize δ).toNat * i).forM fun a =>
        EStateM.adaptExcept StoreError.device (FlashDevice.erasePage (δ := δ) a)) d
      (fun _ k m => k = n ∧ m = wiped (FlashDevice.readWord d)
        (base + (FlashDevice.pageSize δ).toNat * i)
        (base + (FlashDevice.pageSize δ).toNat * (i + n)))
      (fun k m => k < n ∧ m = wiped (FlashDevice.readWord d)
        (base + (FlashDevice.pageSize δ).toNat * i)
        (base + (FlashDevice.pageSize δ).toNat * (i + k))) := by
  generalize hP : (FlashDevice.pageSize δ).toNat = P at *
  induction n generalizing d i with
  | zero => exact Runs.pure hd ⟨rfl, by simp⟩
  | succ n ih =>
    have hsplit : P * (i + (n + 1)) = P * i + P * n + P := by
      rw [Nat.mul_add, Nat.mul_add, Nat.mul_one, ← Nat.add_assoc]
    have hnext : P * (i + 1) = P * i + P := by rw [Nat.mul_add, Nat.mul_one]
    have hmod : (base + P * i) % P = 0 := by rw [Nat.add_mul_mod_self_left, hbase]
    have herase := runs_erasePage (a := base + P * i) hd (by rw [hP, hmod]) (by rw [hP]; omega)
    rw [hP, Nat.add_assoc, ← hnext] at herase
    rw [List.range'_succ, List.map_cons, List.forM]
    refine Runs.bind (herase.mono (fun _ _ _ h => h) ?_) ?_
    · rintro k m ⟨rfl, rfl⟩
      exact ⟨Nat.succ_pos n, by simp⟩
    · rintro _ d' k hd' hk ⟨rfl, hm⟩
      have hcap := capacity_of_reaches hk
      have hs' : base + P * (i + 1 + n) ≤ (FlashDevice.capacity d').toNat := by
        rw [hcap]
        exact Nat.le_trans (Nat.le_of_eq (by congr 2; omega)) hs
      -- the pages erased so far end where the rest starts
      have hjoin : ∀ j,
          wiped (FlashDevice.readWord d') (base + P * (i + 1)) (base + P * (i + 1 + j)) =
            wiped (FlashDevice.readWord d) (base + P * i) (base + P * (i + (1 + j))) := by
        intro j
        have hj : P * (i + 1 + j) = P * i + P + P * j := by
          rw [Nat.mul_add, Nat.mul_add, Nat.mul_one]
        rw [hm, wiped_wiped _ (by omega) (by omega), Nat.add_assoc i 1 j]
      refine (ih (i + 1) hd' hs').mono ?_ ?_
      · rintro _ j m ⟨rfl, rfl⟩
        exact ⟨Nat.add_comm _ _, by rw [hjoin, Nat.add_comm 1 j]⟩
      · rintro j m ⟨hj, rfl⟩
        exact ⟨by omega, hjoin j⟩

/-- A wipe goes page by page, the header first, and always reads back. -/
lemma runs_wipeBlock {block : Block} {d : δ} (hd : Unlocked d)
    (hpos : 0 < (FlashDevice.pageSize δ).toNat)
    (hbase : (FlashDevice.pageSize δ).toNat ∣ block.base)
    (hsize : (FlashDevice.pageSize δ).toNat ∣ block.size)
    (hs : block.stop ≤ (FlashDevice.capacity d).toNat) :
    Runs (wipeBlock block) d
      (fun _ k m => k = block.size / (FlashDevice.pageSize δ).toNat ∧
        m = wiped (FlashDevice.readWord d) block.base block.stop)
      (fun k m => k < block.size / (FlashDevice.pageSize δ).toNat ∧
        m = wiped (FlashDevice.readWord d) block.base
          (block.base + (FlashDevice.pageSize δ).toNat * k)) := by
  generalize hP : (FlashDevice.pageSize δ).toNat = P at *
  obtain ⟨n, hn⟩ := hsize
  have hcount : (block.size + P - 1) / P = n := by
    rw [hn, Nat.add_sub_assoc hpos, Nat.mul_add_div hpos, Nat.div_eq_of_lt (by omega),
      Nat.add_zero]
  have hdiv : block.size / P = n := by rw [hn, Nat.mul_div_cancel_left n hpos]
  have hstop : block.base + P * (0 + n) = block.stop := by rw [Nat.zero_add, ← hn]; rfl
  have hpages : block.pages P = (List.range' 0 n).map fun i => block.base + P * i := by
    rw [Block.pages, hcount, List.range_eq_range']
  unfold wipeBlock
  rw [hP, hpages, hdiv]
  have h := runs_erasePages (δ := δ) block.base n 0 hd
    (by rw [hP]; exact Nat.mod_eq_zero_of_dvd hbase) (by rw [hP, hstop]; exact hs)
  rw [hP] at h
  refine Runs.bind (h.mono (fun _ _ _ h => h) ?_) ?_
  · rintro k m ⟨hk, rfl⟩
    exact ⟨hk, by rw [Nat.mul_zero, Nat.add_zero, Nat.zero_add]⟩
  · rintro _ d' k hd' - ⟨rfl, hm⟩
    rw [Nat.mul_zero, Nat.add_zero, hstop] at hm
    have hclean : ((block.wordsFrom block.base).find? fun a =>
        FlashDevice.readWord d' a != Word.erased) = none := by
      rw [List.find?_eq_none]
      intro a ha
      obtain ⟨h₁, h₂, -⟩ := Block.mem_wordsFrom.1 ha
      simp [hm, wiped_of_mem _ ⟨h₁, h₂⟩]
    refine Runs.get_bind ?_
    simp only [hclean]
    exact Runs.pure hd' ⟨rfl, hm⟩

/-! ### Records -/

/-- A record is complete with its id; before that only the words after its id have changed. -/
lemma runs_commitRecord (ws : List Word) {r : Record} {d : δ} (hd : Unlocked d)
    (ha : r.address % 4 = 0)
    (hs : r.address + 4 * (ws.length + 2) ≤ (FlashDevice.capacity d).toNat)
    (hm : ∀ i, r.address ≤ i → i < r.address + 4 * (ws.length + 2) → i % 4 = 0 →
      FlashDevice.readWord d i = Word.erased) :
    Runs (commitRecord r ws) d
      (fun _ _ m => m = writeWords (FlashDevice.readWord d) r.address (r.id :: r.length :: ws))
      (fun _ m => AgreeOutside (r.address + 4) (r.address + 4 * (ws.length + 2))
        (FlashDevice.readWord d) m) := by
  have hpay : r.payloadAddress = r.address + 8 := rfl
  have hlen : r.lengthAddress = r.address + 4 := rfl
  have hid : r.idAddress = r.address := rfl
  unfold commitRecord
  rw [hpay, hlen, hid]
  -- The payload first, which leaves the words of the header erased,
  refine Runs.bind (Q := fun _ k m => k = ws.length ∧
    m = writeWords (FlashDevice.readWord d) (r.address + 8) ws) ?_ ?_
  · refine (runs_programWords ws hd (by omega) (by omega) ?_).mono (fun _ _ _ h => h) ?_
    · intro i hi
      rw [hm _ (by omega) (by omega) (by omega), Word.erased_and]
    · rintro k m ⟨hk, rfl⟩
      refine (agreeOutside_writeWords _ _ _).mono (by omega) ?_
      rw [List.length_take]
      omega
  · rintro _ d₁ k hd₁ hk ⟨-, hm₁⟩
    have hcap₁ := capacity_of_reaches hk
    have hread₁ : ∀ i, r.address ≤ i → i < r.address + 8 → i % 4 = 0 →
        FlashDevice.readWord d₁ i = Word.erased := by
      intro i h₁ h₂ h₃
      rw [hm₁, writeWords_of_lt _ _ h₂, hm i h₁ (by omega) h₃]
    have hout₁ : AgreeOutside (r.address + 4) (r.address + 4 * (ws.length + 2))
        (FlashDevice.readWord d) (FlashDevice.readWord d₁) := by
      rw [hm₁]
      exact (agreeOutside_writeWords _ _ _).mono (by omega) (by omega)
    -- then the length and at last the id.
    refine (runs_programPair r.id r.length hd₁ ha (by rw [hcap₁]; omega)
      (hread₁ _ (by omega) (by omega) ha) (hread₁ _ (by omega) (by omega) (by omega))).mono ?_ ?_
    · rintro _ j m ⟨-, rfl⟩
      rw [hm₁, writeWords_pair]
    · rintro j m (⟨-, rfl⟩ | ⟨-, rfl⟩)
      · exact hout₁
      · refine hout₁.trans fun i hi => ?_
        exact Function.update_of_ne (by omega) _ _

lemma runs_writeRecord {a : Nat} {id : Word} {data : List UInt8} {d : δ} (hd : Unlocked d)
    (ha : a % 4 = 0) (hlen : data.length < 2 ^ 32)
    (hs : a + recordSpan data.length ≤ (FlashDevice.capacity d).toNat)
    (hm : ∀ i, a ≤ i → i < a + recordSpan data.length → i % 4 = 0 →
      FlashDevice.readWord d i = Word.erased) :
    Runs (writeRecord a id data) d
      (fun z _ m => z = a + recordSpan data.length ∧
        m = writeWords (FlashDevice.readWord d) a (valueImage id data))
      (fun _ m => AgreeOutside (a + 4) (a + recordSpan data.length)
        (FlashDevice.readWord d) m) := by
  have hspan : 4 * ((packWords data).length + 2) = recordSpan data.length :=
    four_mul_length_valueImage id data
  unfold writeRecord
  refine Runs.bind (Q := fun _ _ m => m = writeWords (FlashDevice.readWord d) a
    (valueImage id data)) ?_ ?_
  · rw [← hspan] at hs hm ⊢
    exact runs_commitRecord _ hd ha hs hm
  · rintro _ d' k hd' - hm'
    refine Runs.pure hd' ⟨?_, hm'⟩
    simp only [Record.stop, Record.span, toNat_ofNat_length hlen]

lemma runs_copyRecord {r : Record} {a : Nat} {d : δ} (hd : Unlocked d) (ha : a % 4 = 0)
    (hs : a + r.span ≤ (FlashDevice.capacity d).toNat)
    (hm : ∀ i, a ≤ i → i < a + r.span → i % 4 = 0 → FlashDevice.readWord d i = Word.erased) :
    Runs (copyRecord r a) d
      (fun z _ m => z = a + r.span ∧
        m = writeWords (FlashDevice.readWord d) a (r.image (FlashDevice.readWord d)))
      (fun _ m => AgreeOutside a (a + r.span) (FlashDevice.readWord d) m) := by
  have hspan : 4 * ((r.words (FlashDevice.readWord d)).length + 2) = r.span :=
    r.four_mul_length_image (FlashDevice.readWord d)
  unfold copyRecord
  refine Runs.get_bind ?_
  have hcommit := runs_commitRecord (r.words (FlashDevice.readWord d))
    (r := { r with address := a }) hd ha (by rw [hspan]; exact hs) (by rw [hspan]; exact hm)
  rw [hspan] at hcommit
  refine Runs.bind (hcommit.mono (fun _ _ _ h => h) ?_) ?_
  · intro k m hout
    exact hout.mono (Nat.le_add_right _ _) (Nat.le_refl _)
  · rintro _ d' k hd' - hm'
    exact Runs.pure hd' ⟨rfl, hm'⟩

/-- Records are copied back to back, each as it reads before. They are not where the copies go. -/
lemma runs_copyRecords (rs : List Record) {a : Nat} {d : δ} (hd : Unlocked d) (ha : a % 4 = 0)
    (hs : a + Record.totalSpan rs ≤ (FlashDevice.capacity d).toNat)
    (hm : ∀ i, a ≤ i → i < a + Record.totalSpan rs → i % 4 = 0 →
      FlashDevice.readWord d i = Word.erased)
    (hsep : ∀ r ∈ rs, r.stop ≤ a ∨ a + Record.totalSpan rs ≤ r.address) :
    Runs (copyRecords rs a) d
      (fun z _ m => z = a + Record.totalSpan rs ∧ m = writeWords (FlashDevice.readWord d) a
        (rs.flatMap fun r => r.image (FlashDevice.readWord d)))
      (fun _ m => AgreeOutside a (a + Record.totalSpan rs) (FlashDevice.readWord d) m) := by
  induction rs generalizing d a with
  | nil => exact Runs.pure hd ⟨rfl, rfl⟩
  | cons r rs ih =>
    rw [Record.totalSpan_cons] at hs hm hsep ⊢
    have hmod : r.span % 4 = 0 := by
      rw [← r.four_mul_length_image (FlashDevice.readWord d)]
      omega
    unfold copyRecords
    refine Runs.bind ((runs_copyRecord hd ha (by omega)
      (fun i h₁ h₂ => hm i h₁ (by omega))).mono (fun _ _ _ h => h) ?_) ?_
    · intro k m hout
      exact hout.mono (Nat.le_refl _) (by omega)
    · rintro z d' k hd' hk ⟨rfl, hm'⟩
      have hcap := capacity_of_reaches hk
      have hout : AgreeOutside a (a + r.span) (FlashDevice.readWord d)
          (FlashDevice.readWord d') := by
        have h := agreeOutside_writeWords (FlashDevice.readWord d) a
          (r.image (FlashDevice.readWord d))
        rwa [r.four_mul_length_image, ← hm'] at h
      -- The records still to be copied read as before: they lie outside of the first copy.
      have himages : (rs.flatMap fun r' => r'.image (FlashDevice.readWord d')) =
          rs.flatMap fun r' => r'.image (FlashDevice.readWord d) := by
        refine images_congr fun r' hr' => hout.agreeOn ?_
        have hside := hsep r' (List.mem_cons_of_mem _ hr')
        have hpay := r'.address_add_eight
        omega
      refine (ih hd' (by omega) (by rw [hcap]; omega) ?_ ?_).mono ?_ ?_
      · intro i h₁ h₂ h₃
        rw [hout i (by omega), hm i (by omega) (by omega) h₃]
      · intro r' hr'
        have := hsep r' (List.mem_cons_of_mem _ hr')
        omega
      · rintro z j m ⟨rfl, rfl⟩
        refine ⟨Nat.add_assoc _ _ _, ?_⟩
        rw [List.flatMap_cons, writeWords_append, r.four_mul_length_image, ← hm', himages]
      · intro j m hout'
        refine AgreeOutside.trans (hout.mono (Nat.le_refl _) (by omega)) ?_
        exact hout'.mono (by omega) (by omega)

/-- The payload is cleared word by word before the id: cut short, a removal leaves a record that
still has its id and has lost the start of its payload. -/
lemma runs_removeRecord {r : Record} {d : δ} (hd : Unlocked d) (ha : r.address % 4 = 0)
    (hs : r.stop ≤ (FlashDevice.capacity d).toNat) :
    Runs (removeRecord r) d
      (fun _ k m => k = r.wordCount + 1 ∧ m = cleared (FlashDevice.readWord d) r)
      (fun k m => k ≤ r.wordCount ∧
        m = writeWords (FlashDevice.readWord d) r.payloadAddress (List.replicate k 0)) := by
  have hend := r.payload_stop
  have hpay : r.payloadAddress = r.address + 8 := rfl
  have hid : r.idAddress = r.address := rfl
  unfold removeRecord
  refine Runs.bind (Q := fun _ k m => k = r.wordCount ∧ m = writeWords (FlashDevice.readWord d)
    r.payloadAddress (List.replicate r.wordCount 0)) ?_ ?_
  · refine (runs_programWords _ hd (by omega) (by rw [List.length_replicate]; omega) ?_).mono ?_ ?_
    · intro i hi
      rw [List.getElem_replicate, UInt32.and_zero]
    · rintro _ k m ⟨hk, hm⟩
      exact ⟨hk.trans (List.length_replicate ..), hm⟩
    · rintro k m ⟨hk, rfl⟩
      rw [List.length_replicate] at hk
      refine ⟨Nat.le_of_lt hk, ?_⟩
      rw [List.take_replicate, Nat.min_eq_left (Nat.le_of_lt hk)]
  · rintro _ d' k hd' hk ⟨rfl, hm⟩
    have hcap := capacity_of_reaches hk
    refine (runs_programVerified hd' ha (by rw [hcap]; omega) UInt32.and_zero).mono ?_ ?_
    · rintro _ j m ⟨rfl, rfl⟩
      exact ⟨rfl, by rw [hm]; rfl⟩
    · rintro j m ⟨rfl, rfl⟩
      exact ⟨Nat.le_refl _, hm⟩

end FlashStore
