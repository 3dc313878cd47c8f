import FlashStore.Proofs.Accounting
import FlashStore.Proofs.Guards

/-!
# Rejections

A request that is rejected leaves no trace, on the device or in the store, whatever state the store
is in and whatever flash holds. Most are rejected for their arguments, before anything else is
looked at. The others are known by their error: once an operation is under way it fails for the sake
of flash, or for want of room, and for no other reason.
-/

namespace FlashStore

open Store

/-! ### Spans in 32 bits -/

/-- The length of a payload and the span of its record fit a word each, and the block has room for
that span. -/
def Block.Admits (block : Block) (n : Nat) : Prop :=
  ∃ length span : Word, length.toNat = n ∧ recordSpan? length = some span ∧
    span.toNat ≤ block.capacity

/-- In a block that a word can measure, the span of a record that fits cannot overflow. -/
theorem Block.admits_iff {block : Block} {n : Nat} (h : block.size < 0x100000000) :
    block.Admits n ↔ recordSpan n ≤ block.capacity := by
  constructor
  · rintro ⟨length, span, rfl, hspan, hle⟩
    rwa [toNat_of_recordSpan? hspan] at hle
  · intro hle
    have hlt : recordSpan n < 0x100000000 :=
      Nat.lt_of_le_of_lt (Nat.le_trans hle (Nat.sub_le _ _)) h
    have hn : (UInt32.ofNat n).toNat = n := by
      rw [UInt32.toNat_ofNat', Nat.mod_eq_of_lt]
      have hround := le_roundToWords n
      simp only [recordSpan] at hlt
      omega
    obtain ⟨span, hspan⟩ := exists_recordSpan? (n := UInt32.ofNat n) (by rwa [hn])
    refine ⟨UInt32.ofNat n, span, hn, hspan, ?_⟩
    rwa [toNat_of_recordSpan? hspan, hn]

variable {δ α β : Type} [FlashDevice δ] {s s' : Store δ} {id : Word} {data : List UInt8}
  {e : StoreError}

namespace Store

/-! ### Requests of a store -/

omit [FlashDevice δ] in
/-- A write is rejected for its id first, then for its length, then for want of service and at last
for its span. -/
lemma checkWrite_of_not (h : isUsableId id = false ∨ data.length < minPayload ∨
    s.inService = false ∨ ¬ s.block.Admits data.length) :
    checkWrite id data s = .error (if isUsableId id = false then .reservedId
      else if data.length < minPayload then .tooShort
      else if s.inService = false then .outOfService else .full) := by
  rw [Block.admits_iff s.placement.blockSize.toNat_lt, Nat.not_le] at h
  rw [checkWrite_eq]
  cases hid : isUsableId id with
  | false => rfl
  | true =>
    by_cases hshort : data.length < minPayload
    · simp [hshort]
    · cases hin : s.inService with
      | false => simp [hshort]
      | true =>
        have hfull : s.block.capacity < recordSpan data.length := by
          simpa [hid, hshort, hin] using h
        simp [hshort, hfull]

/-- From here on the operation fails for the sake of flash only. -/
def FailsFromFlash (x : StoreM δ α) (s : Store δ) : Prop :=
  Ensures x s (fun _ _ => True) fun e _ => e.FromFlash

lemma failsFromFlash_of_preserves {x : StoreM δ α}
    (h : ∀ k, Preserves (Guard.anything.At k) StoreError.FromFlash x) (s : Store δ) :
    FailsFromFlash x s := by
  have hs : Guard.anything.At s.unlockDepth s := by
    refine ⟨rfl, ?_⟩
    split <;> trivial
  exact (h s.unlockDepth s hs).mono (fun _ _ _ => trivial) fun _ _ h => h.2

omit [FlashDevice δ] in
/-- An operation asks a question first. If only flash makes it fail after that, any other error is
the answer to the question, and the store is as it was. -/
lemma unchanged_of_ask {f : Store δ → Except StoreError α} {x : α → StoreM δ β}
    (hx : ∀ a, f s = .ok a → FailsFromFlash (x a) s) (h : (query f >>= x).run s = .error e s')
    (he : ¬ e.FromFlash) : s' = s := by
  rw [EStateM.run_bind, run_query] at h
  cases hf : f s with
  | error e' =>
    rw [hf] at h
    cases h
    rfl
  | ok a =>
    rw [hf] at h
    exact absurd ((hx a hf).of_error h) he

lemma unchanged_of_erase (h : (erase id).run s = .error e s') (he : ¬ e.FromFlash) : s' = s :=
  unchanged_of_ask (fun _ _ => failsFromFlash_of_preserves (fun _ => Guard.anything.removeAll id) s)
    h he

lemma failsFromFlash_compactNow (s : Store δ) :
    FailsFromFlash (suspendOnFailure compactNow : StoreM δ Unit) s :=
  failsFromFlash_of_preserves (fun _ => Guard.anything.suspendOnFailure Guard.anything.compactNow) s

lemma unchanged_of_compact (h : (compact : StoreM δ Unit).run s = .error e s')
    (he : ¬ e.FromFlash) : s' = s :=
  unchanged_of_ask (fun _ _ => failsFromFlash_compactNow s) h he

/-- In service, what can be reclaimed is known unless the chain is broken. -/
lemma fromFlash_of_reclaimable (hin : s.requireService = .ok ()) (h : s.reclaimable = .error e) :
    e.FromFlash := by
  unfold reclaimable at h
  rw [hin] at h
  cases hintact : s.chain.requireIntact with
  | ok u => simp [hintact, bind, Except.bind, pure, Except.pure] at h
  | error e' =>
    rw [hintact] at h
    obtain rfl := Except.error.inj h
    exact Chain.fromFlash_of_requireIntact hintact

lemma unchanged_of_compactIfLow (h : (compactIfLow : StoreM δ Bool).run s = .error e s')
    (he : ¬ e.FromFlash) : s' = s := by
  refine unchanged_of_ask (fun _ hin => ?_) h he
  refine Ensures.get_bind (Ensures.get_bind ?_)
  split
  · exact Ensures.pure trivial
  · refine Ensures.bind (Q := fun _ _ => True) ?_ fun n t _ => ?_
    · refine Ensures.suspendOnFailure (Ensures.query (fun _ _ => trivial) fun e' h => ?_)
      exact fromFlash_of_reclaimable hin h
    · split
      · exact Ensures.pure trivial
      · exact (failsFromFlash_compactNow t).bind fun _ _ _ => Ensures.pure trivial

end Store

/-! ### Requests of the settings -/

omit [FlashDevice δ] in
lemma SettingM.answer_of_ok {x : SettingM δ α} {a : α} (h : x.run s = .ok a s') (f : α → Answer) :
    x.answer f s = (f a, s') := by
  rw [SettingM.answer, h]

omit [FlashDevice δ] in
lemma SettingM.answer_of_error {x : SettingM δ α} {e : SettingError}
    (h : x.run s = .error e s') (f : α → Answer) : x.answer f s = (.settingError e, s') := by
  rw [SettingM.answer, h]

lemma Display.run_save_of_lt {d : Display} (h : maxBrightness < d.brightness) :
    d.save.run s = .error .outOfRange s := by
  simp [save, h]

lemma Calibration.run_store_of_ne {name : String} (h : ∀ c : Coefficient, c.name ≠ name)
    (x : Single) : (store name x).run s = .error .unknownParameter s := by
  have hnone : Coefficient.ofName? name = none :=
    List.find?_eq_none.2 fun c _ => by simpa using h c
  rw [store, hnone]
  rfl

lemma Firmware.run_syncVersion_of_lt {version : String}
    (h : maxVersionLength < version.utf8ByteSize) (image : Firmware) :
    (image.syncVersion version).run s = .error .invalidLength s := by
  have hlength : maxVersionLength < version.toUTF8.data.toList.length := h
  simp only [syncVersion, if_pos hlength]
  rfl

/-- What is rejected changes nothing: on every device, whatever it holds and whatever state the
store is in, the device and every field of the store are as before. -/
theorem Store.unchanged_of_rejected [Addressable δ] (s : Store δ) :
    (∀ id data, isUsableId id = false ∨ data.length < minPayload ∨ s.inService = false ∨
        ¬ s.block.Admits data.length →
      (StoreCommand.write id data).run s =
        (.storeError (if isUsableId id = false then .reservedId
          else if data.length < minPayload then .tooShort
          else if s.inService = false then .outOfService else .full), s)) ∧
    (∀ id e, s.find id = .error e → (StoreCommand.erase id).run s = (.storeError e, s)) ∧
    (∀ id e s', e = .reservedId ∨ e = .outOfService ∨ e = .notFound →
      (StoreCommand.erase id).run s = (.storeError e, s') → s' = s) ∧
    (∀ command s', command = .compact ∨ command = .compactIfLow →
      StoreCommand.run command s = (.storeError .outOfService, s') → s' = s) ∧
    (∀ d : Display, Display.maxBrightness < d.brightness →
      (SettingCommand.saveDisplay d).run s = (.settingError .outOfRange, s)) ∧
    (∀ name x, (∀ c : Coefficient, c.name ≠ name) →
      (SettingCommand.saveCoefficient name x).run s = (.settingError .unknownParameter, s)) ∧
    ∀ image version, 48 < version.utf8ByteSize →
      (SettingCommand.syncVersion image version).run s = (.settingError .invalidLength, s) := by
  refine ⟨fun id data h => ?write, fun id e h => ?lookup, fun id e s' he h => ?erase,
    fun command s' hcommand h => ?compact, fun d h => ?display, fun name x h => ?coefficient,
    fun image version h => ?version⟩
  case write => exact answer_of_error (run_write_of_checkWrite (checkWrite_of_not h)) _
  case lookup => exact answer_of_error (run_erase_of_find h) _
  case erase =>
    refine unchanged_of_erase (run_of_answer_error h fun _ => nofun) ?_
    obtain rfl | rfl | rfl := he <;> exact not_false
  case compact =>
    obtain rfl | rfl := hcommand
    · exact unchanged_of_compact (run_of_answer_error h fun _ => nofun) not_false
    · exact unchanged_of_compactIfLow (run_of_answer_error h fun _ => nofun) not_false
  case display => exact SettingM.answer_of_error (Display.run_save_of_lt h) _
  case coefficient => exact SettingM.answer_of_error (Calibration.run_store_of_ne h x) _
  case version => exact SettingM.answer_of_error (Firmware.run_syncVersion_of_lt h image) _

/-- Two stores in disorder reject whatever can be rejected: their cursor lies outside the blocks and
write protection is lifted by no operation. -/
theorem Store.unchanged_of_rejected_in_disorder :
    let s : Store (NorFlash 96 24) := ⟨NorFlash.blank, ⟨0, 48, 48, 20⟩, .b, 7, 3, true, 2⟩
    let t := { s with inService := false }
    (StoreCommand.write vacantId []).run t = (.storeError .reservedId, t) ∧
      (StoreCommand.write 1 [1, 2, 3]).run t = (.storeError .tooShort, t) ∧
      (StoreCommand.write 1 [1, 2, 3, 4]).run t = (.storeError .outOfService, t) ∧
      (StoreCommand.write 1 (List.replicate 33 0)).run s = (.storeError .full, s) ∧
      (StoreCommand.erase 1).run s = (.storeError .notFound, s) ∧
      StoreCommand.compact.run t = (.storeError .outOfService, t) ∧
      (SettingCommand.saveDisplay ⟨true, 101⟩).run s = (.settingError .outOfRange, s) ∧
      (SettingCommand.saveCoefficient "A_ADC" ⟨0⟩).run s = (.settingError .unknownParameter, s) ∧
      (SettingCommand.syncVersion .app (String.ofList (List.replicate 49 'v'))).run s =
        (.settingError .invalidLength, s) := by
  intro s t
  obtain ⟨hwrite, hlookup, -, -, hdisplay, hcoefficient, hversion⟩ := unchanged_of_rejected s
  obtain ⟨hwrite', -, -, hcompact', -⟩ := unchanged_of_rejected t
  have hfull : ¬ s.block.Admits 33 := by
    rw [Block.admits_iff (by decide)]
    decide
  refine ⟨hwrite' _ _ (.inl rfl), hwrite' _ _ (.inr (.inl (by decide))),
    hwrite' _ _ (.inr (.inr (.inl rfl))), hwrite _ _ (.inr (.inr (.inr hfull))), hlookup _ _ ?_,
    Prod.ext rfl (hcompact' .compact _ (.inl rfl) rfl), hdisplay _ (by decide),
    hcoefficient _ _ ?_, hversion _ _ (by decide)⟩
  · decide +kernel
  · intro c
    cases c <;> decide

end FlashStore
