import FlashStore.Proofs.Integrity
import FlashStore.Proofs.Simulation
import FlashStore.Proofs.Tracing

/-!
# Proper calls

Whatever NOR flash holds at first, a store asks it only for what it can do: every word it programs
is unprotected, in place and only loses bits, and every page it erases is unprotected and in place.
So nothing fails but for want of power, by its arguments, or for want of room, of service or of a
value: no program is found not to have taken, no chain is found broken, and no call is refused. Only
what power loss interrupts puts a store out of service, and the error says so.
-/

namespace FlashStore

open LawfulFlash Store

/-! ### Calls -/

section Calls

variable {δ : Type} [FlashDevice δ] [LawfulFlash δ]

/-- The device is unprotected and the address in place, and a program only clears bits. -/
def FlashCall.Proper (d : δ) : FlashCall → Prop
  | program a w => Unlocked d ∧ a % 4 = 0 ∧ a + 4 ≤ (FlashDevice.capacity d).toNat ∧
      FlashDevice.readWord d a &&& w = w
  | erase a => Unlocked d ∧ a % (FlashDevice.pageSize δ).toNat = 0 ∧
      a + (FlashDevice.pageSize δ).toNat ≤ (FlashDevice.capacity d).toNat

namespace Traced

/-- Every call so far was proper. -/
def Proper (d : Traced δ) : Prop := ∀ c ∈ d.calls, c.2.Proper c.1

lemma Proper.cons {d : Traced δ} (h : d.Proper) {c : FlashCall} (hc : c.Proper d.device)
    (inner : δ) : Proper ⟨inner, (d.device, c) :: d.calls⟩ := by
  intro c' hc'
  rcases List.mem_cons.1 hc' with rfl | hc'
  · exact hc
  · exact h c' hc'

/-- A proper call does on a traced device what it does on the device, and keeps the trace proper. -/
lemma ensures_call {d : Traced δ} {c : FlashCall} {x : DeviceM δ Unit} {Q : δ → Prop}
    {E : DeviceError → δ → Prop} {j k : Nat} (hc : c.Proper d.device)
    (hx : Ensures x d.device (fun _ d' => Unlocked d' ∧ Reaches j d.device d' ∧ Q d')
      (fun e d' => Unlocked d' ∧ Reaches k d.device d' ∧ E e d')) :
    Ensures (call c x) d
      (fun _ d' => Unlocked d'.device ∧
        (Reaches j d.device d'.device ∧ (d.Proper → d'.Proper)) ∧ Q d'.device)
      (fun e d' => Unlocked d'.device ∧
        (Reaches k d.device d'.device ∧ (d.Proper → d'.Proper)) ∧ E e d'.device) := by
  unfold Ensures
  rw [run_call]
  cases hrun : x.run d.device with
  | ok u inner =>
    obtain ⟨hu, hr, hq⟩ := hx.of_ok hrun
    exact ⟨hu, ⟨hr, fun h => h.cons hc inner⟩, hq⟩
  | error e inner =>
    obtain ⟨hu, hr, he⟩ := hx.of_error hrun
    exact ⟨hu, ⟨hr, fun h => h.cons hc inner⟩, he⟩

/-- On a lawful device a trace of proper calls is continued by proper calls. -/
instance : LawfulFlash (Traced δ) where
  Unlocked d := Unlocked d.device
  Reaches k d d' := Reaches k d.device d'.device ∧ (d.Proper → d'.Proper)
  Refuses d := Refuses d.device
  pageSize_mod := pageSize_mod (δ := δ)
  reaches_refl d := ⟨reaches_refl d.device, fun h => h⟩
  reaches_trans h h' := ⟨reaches_trans h.1 h'.1, fun hd => h'.2 (h.2 hd)⟩
  capacity_of_reaches h := capacity_of_reaches (δ := δ) h.1
  unlocked_unlock d := unlocked_unlock d.device
  reaches_unlock d := ⟨reaches_unlock d.device, fun h => h⟩
  reaches_lock d := ⟨reaches_lock d.device, fun h => h⟩
  refuses_lock h := refuses_lock (δ := δ) h
  readWord_unlock d := readWord_unlock d.device
  readWord_lock d := readWord_lock d.device
  ensures_programWord {_ a} w hu ha hs hw :=
    ensures_call (c := .program a w) ⟨hu, ha, hs, hw⟩ (ensures_programWord w hu ha hs hw)
  ensures_erasePage {_ a} hu ha hs :=
    ensures_call (c := .erase a) ⟨hu, ha, hs⟩ (ensures_erasePage hu ha hs)

instance [PowerControlled δ] [LawfulPower δ] : LawfulPower (Traced δ) where
  readWord_cutPowerAfter n d := LawfulPower.readWord_cutPowerAfter n d.device
  readWord_restorePower d := LawfulPower.readWord_restorePower d.device
  capacity_cutPowerAfter n d := LawfulPower.capacity_cutPowerAfter n d.device
  capacity_restorePower d := LawfulPower.capacity_restorePower d.device
  unlocked_cutPowerAfter h := LawfulPower.unlocked_cutPowerAfter (δ := δ) h
  unlocked_restorePower h := LawfulPower.unlocked_restorePower (δ := δ) h

end Traced

end Calls

/-! ### Errors -/

/-- An error that comes from the arguments, or from a want of service, of room or of a value. -/
def StoreError.isOrdinary : StoreError → Bool
  | reservedId | tooShort | outOfService | full | notFound | bufferTooSmall => true
  | misplaced | brokenChain _ | readBack _ | device _ => false

/-- An error that is ordinary or for want of power. -/
def StoreError.isExpected (e : StoreError) : Bool := e.isOrdinary || e == device .powerLoss

section Errors

variable {δ α : Type} [FlashDevice δ] [LawfulFlash δ] {s : Store δ} {c : Contents} {id : Word}
  {e : StoreError}

namespace Store

/-- The store may answer a request so without touching flash: with an ordinary error, and for want
of service only when it is out of service. -/
def Declines (s : Store δ) (e : StoreError) : Prop :=
  e.isOrdinary = true ∧ (e = .outOfService → s.inService = false)

omit [FlashDevice δ] [LawfulFlash δ] in
lemma declines_of_not_inService (hin : ¬ s.inService = true) (he : e.isOrdinary = true) :
    s.Declines e :=
  ⟨he, fun _ => Bool.eq_false_iff.2 hin⟩

omit [FlashDevice δ] [LawfulFlash δ] in
lemma declines_of_lookup (h : c.lookup id = .error e) : s.Declines e := by
  unfold Contents.lookup at h
  split at h
  · cases hget : c.get? id with
    | none =>
      rw [hget] at h
      obtain rfl := Except.error.inj h
      exact ⟨rfl, nofun⟩
    | some data => simp [hget] at h
  · obtain rfl := Except.error.inj h
    exact ⟨rfl, nofun⟩

omit [LawfulFlash δ] in
/-- Out of service nothing is found, for want of service or of a usable id. -/
lemma find_of_not_inService (hin : ¬ s.inService = true) (id : Word) :
    ∃ e, s.find id = .error e ∧ s.Declines e := by
  rw [find_eq, Bool.eq_false_iff.2 hin]
  split
  · exact ⟨_, rfl, declines_of_not_inService hin rfl⟩
  · exact ⟨_, rfl, declines_of_not_inService hin rfl⟩

variable (hs : s.Operable) (hv : s.view.Valid s.placement)
include hs hv

/-- A valid store finds a record or declines. -/
lemma declines_of_find (h : s.find id = .error e) : s.Declines e := by
  by_cases hin : s.inService = true
  · cases hl : (s.placement.persisted s.word).lookup id with
    | error e' =>
      rw [find_of_lookup_error hs (hv.serves hin) hl] at h
      exact Except.error.inj h ▸ declines_of_lookup hl
    | ok data =>
      obtain ⟨pre, r, post, hfind, -⟩ := find_of_lookup hs (hv.serves hin) hl
      rw [hfind] at h
      cases h
  · obtain ⟨e', he, hdeclines⟩ := find_of_not_inService hin id
    rw [he] at h
    exact Except.error.inj h ▸ hdeclines

lemma declines_of_read [Addressable δ] [LawfulAddressable δ] (h : s.read id = .error e) :
    s.Declines e := by
  by_cases hin : s.inService = true
  · rw [read_of_serves hs (hv.serves hin)] at h
    exact declines_of_lookup h
  · obtain ⟨e', he, hdeclines⟩ := find_of_not_inService hin id
    rw [read, he] at h
    exact Except.error.inj h ▸ hdeclines

lemma declines_of_readInto {buffer : List UInt8} (h : s.readInto id buffer = .error e) :
    s.Declines e := by
  obtain hf | rfl := readInto_error h
  · exact declines_of_find hs hv hf
  · exact ⟨rfl, nofun⟩

lemma declines_of_contains (h : s.contains id = .error e) : s.Declines e :=
  declines_of_find hs hv (contains_error h)

lemma declines_of_reclaimable (h : s.reclaimable = .error e) : s.Declines e := by
  by_cases hin : s.inService = true
  · rw [reclaimable_of_serves hs (hv.serves hin)] at h
    cases h
  · rw [reclaimable, StoreCommand.requireService_of_not hin] at h
    obtain rfl := Except.error.inj h
    exact declines_of_not_inService hin rfl

/-- A valid store in service has a whole list of records. -/
lemma error_of_list {l : Listing} (h : s.list = .ok l) : l.error = none := by
  by_cases hin : s.inService = true
  · obtain ⟨rs, hlist, -⟩ := list_of_serves hs (hv.serves hin)
    rw [hlist] at h
    obtain rfl := Except.ok.inj h
    rfl
  · rw [list, StoreCommand.requireService_of_not hin] at h
    cases h

lemma declines_of_list (h : s.list = .error e) : s.Declines e := by
  by_cases hin : s.inService = true
  · obtain ⟨rs, hlist, -⟩ := list_of_serves hs (hv.serves hin)
    rw [hlist] at h
    cases h
  · rw [list, StoreCommand.requireService_of_not hin] at h
    obtain rfl := Except.error.inj h
    exact declines_of_not_inService hin rfl

end Store

namespace StoreCommand

/-- How a request fails: the store declines it and stays in service or out of it, or the device
fails it and the store is out of service. -/
def Fails (s : Store δ) (e : StoreError) (s' : Store δ) : Prop :=
  s.Declines e ∧ s'.inService = s.inService ∨ e.FromDevice ∧ s'.inService = false

/-- An operation that only the device can fail puts the store out of service when it does. -/
lemma fails_of_acts {x : StoreM δ α} {f : α → Answer} {Q : α → Nat → View → Prop}
    {E : StoreError → Nat → View → Prop} (hx : Acts x s Q E)
    (h : (x.answer f s).1 = .storeError e)
    (hE : ∀ e k v, E e k v → e.FromDevice ∧ v.inService = false)
    (hf : ∀ a e, f a ≠ .storeError e) : Fails s e (x.answer f s).2 := by
  rcases answer_of_ensures hx f with ⟨a, s', ha, -⟩ | ⟨e', s', ha, -, k, -, -, he'⟩
  · rw [ha] at h
    exact absurd h (hf a e)
  · rw [ha] at h ⊢
    exact .inr (Answer.storeError.inj h ▸ hE e' k _ he')

omit [FlashDevice δ] [LawfulFlash δ] in
/-- A request that is refused leaves the store as it is. -/
lemma fails_of_refused {x : StoreM δ α} {e' : StoreError} {f : α → Answer}
    (hx : x.run s = .error e' s) (h : (x.answer f s).1 = .storeError e) (he : s.Declines e') :
    Fails s e (x.answer f s).2 := by
  rw [answer_of_error hx] at h ⊢
  exact .inl ⟨Answer.storeError.inj h ▸ he, rfl⟩

omit [FlashDevice δ] [LawfulFlash δ] in
lemma eq_error_of_ofStore {x : Except StoreError α} {f : α → Answer}
    (h : Answer.ofStore f x = .storeError e) (hf : ∀ a e, f a ≠ .storeError e) : x = .error e := by
  cases x with
  | ok a => exact absurd h (hf a e)
  | error e' => exact congrArg Except.error (Answer.storeError.inj h)

lemma fails_write (hs : s.Operable) (hv : s.view.Valid s.placement) {data : List UInt8}
    (h : (StoreM.answer (Store.write id data) (fun _ => .done) s).1 = .storeError e) :
    Fails s e (StoreM.answer (Store.write id data) (fun _ => .done) s).2 := by
  by_cases hin : s.inService = true
  · rcases answer_of_ensures (ensures_write id data hs (hv.serves hin)) fun _ => .done with
      ⟨_, s', ha, -⟩ | ⟨e', s', ha, -, k, -, -, ⟨hput, hserves⟩ | ⟨hdev, hsuspended⟩⟩
    · rw [ha] at h
      cases h
    · rw [ha] at h ⊢
      obtain rfl := Answer.storeError.inj h
      refine .inl ⟨?_, hserves.inService.trans hin.symm⟩
      rcases Contents.checkPut_error hput with rfl | rfl | rfl <;> exact ⟨rfl, nofun⟩
    · rw [ha] at h ⊢
      obtain rfl := Answer.storeError.inj h
      exact .inr ⟨hdev, hsuspended.elim (·.inService) (·.inService)⟩
  · have hcheck : ∃ e', checkWrite id data s = .error e' ∧ e'.isOrdinary = true := by
      rw [checkWrite_eq, Bool.eq_false_iff.2 hin]
      split
      · exact ⟨_, rfl, rfl⟩
      · split
        · exact ⟨_, rfl, rfl⟩
        · exact ⟨_, rfl, rfl⟩
    obtain ⟨e', he', hord⟩ := hcheck
    exact fails_of_refused (run_write_of_checkWrite he') h (declines_of_not_inService hin hord)

/-- A valid store declines a command, or the device fails it. -/
theorem fails_of_answer [Addressable δ] [LawfulAddressable δ] (hs : s.Operable)
    (hv : s.view.Valid s.placement) {command : StoreCommand}
    (h : (command.run s).1 = .storeError e) : Fails s e (command.run s).2 := by
  have hservice (hin : ¬ s.inService = true) : s.requireService = .error .outOfService :=
    requireService_of_not hin
  have hsuspended {c : Contents} {e : StoreError} {v : View}
      (h : e.FromDevice ∧ v.Suspended s.placement c) : e.FromDevice ∧ v.inService = false :=
    h.imp_right (·.inService)
  -- What only asks a question leaves the store alone.
  have hquestion {α : Type} {x : Except StoreError α} {f : α → Answer}
      (h : Answer.ofStore f x = .storeError e) (hf : ∀ a e, f a ≠ .storeError e)
      (hx : x = .error e → s.Declines e) : Fails s e s :=
    .inl ⟨hx (eq_error_of_ofStore h hf), rfl⟩
  cases command with
  | recover =>
    exact fails_of_acts (acts_recover hs) h (fun _ _ _ => hsuspended) fun _ _ => nofun
  | format =>
    exact fails_of_acts (acts_format hs) h (fun _ _ _ he => ⟨he.1, he.2.1⟩) fun _ _ => nofun
  | compact =>
    by_cases hin : s.inService = true
    · exact fails_of_acts (acts_compact hs (hv.serves hin)) h (fun _ _ _ => hsuspended)
        fun _ _ => nofun
    · exact fails_of_refused (run_compact_of_requireService (hservice hin)) h
        (declines_of_not_inService hin rfl)
  | compactIfLow =>
    by_cases hin : s.inService = true
    · exact fails_of_acts (acts_compactIfLow hs (hv.serves hin)) h (fun _ _ _ => hsuspended)
        fun _ _ => nofun
    · exact fails_of_refused (run_compactIfLow_of_requireService (hservice hin)) h
        (declines_of_not_inService hin rfl)
  | write id data => exact fails_write hs hv h
  | erase id =>
    cases hfind : s.find id with
    | error e' => exact fails_of_refused (run_erase_of_find hfind) h (declines_of_find hs hv hfind)
    | ok r =>
      obtain ⟨hin, data, hl⟩ := exists_lookup_of_find hs hv hfind
      exact fails_of_acts (acts_erase hs (hv.serves hin) hl) h (fun _ _ _ he => ⟨he.1, he.2.2.1⟩)
        fun _ _ => nofun
  | read id => exact hquestion h (fun _ _ => nofun) (declines_of_read hs hv)
  | readInto id buffer => exact hquestion h (fun _ _ => nofun) (declines_of_readInto hs hv)
  | contains id => exact hquestion h (fun _ _ => nofun) (declines_of_contains hs hv)
  | reclaimable => exact hquestion h (fun _ _ => nofun) (declines_of_reclaimable hs hv)
  | list => exact hquestion h (fun _ _ => nofun) (declines_of_list hs hv)

omit [FlashDevice δ] [LawfulFlash δ] in
lemma exists_of_answer_listing {x : StoreM δ α} {f : α → Answer} {l : Listing}
    (h : (x.answer f s).1 = .listing l) : ∃ a, f a = .listing l := by
  unfold StoreM.answer at h
  cases hx : x.run s with
  | ok a s' =>
    rw [hx] at h
    exact ⟨a, h⟩
  | error e' s' =>
    rw [hx] at h
    cases h

omit [FlashDevice δ] [LawfulFlash δ] in
lemma exists_of_ofStore_listing {x : Except StoreError α} {f : α → Answer} {l : Listing}
    (h : Answer.ofStore f x = .listing l) : ∃ a, x = .ok a ∧ f a = .listing l := by
  cases x with
  | ok a => exact ⟨a, rfl, h⟩
  | error e' => cases h

/-- A valid store lists its records to the end. -/
lemma error_of_listing [Addressable δ] (hs : s.Operable) (hv : s.view.Valid s.placement)
    {command : StoreCommand} {l : Listing} (h : (command.run s).1 = .listing l) :
    l.error = none := by
  cases command with
  | recover | format | compact | compactIfLow | write | erase =>
    obtain ⟨_, ha⟩ := exists_of_answer_listing h
    cases ha
  | read | readInto | contains | reclaimable =>
    obtain ⟨_, -, ha⟩ := exists_of_ofStore_listing h
    cases ha
  | list =>
    obtain ⟨l', hl, ha⟩ := exists_of_ofStore_listing h
    obtain rfl := Answer.listing.inj ha
    exact error_of_list hs hv hl

end StoreCommand

end Errors

/-! ### Sessions -/

namespace Session

section Sound

variable {δ : Type} [FlashDevice δ] [LawfulFlash δ] [Addressable δ] [PowerControlled δ]
  {x : Session δ} {e : StoreError}

/-- A call is answered with an ordinary error or one that the device refuses with, and lists
nothing short. -/
lemma Sound.answer_call [LawfulAddressable δ] (hx : x.Sound) (command : StoreCommand) :
    (∀ e, (x.step (.store command)).1 = .storeError e → e.isOrdinary = true ∨
      ∃ e', e = .device e' ∧ Refuses (x.step (.store command)).2.device e') ∧
    ∀ l, (x.step (.store command)).1 = .listing l → l.error = none := by
  cases h : x.store? with
  | none =>
    rw [step_call_of_none h]
    exact ⟨nofun, nofun⟩
  | some s =>
    obtain ⟨hp, -, hs, hv⟩ := hx s h
    obtain ⟨-, k, hends, -⟩ := hx.call h command
    rw [step_call h] at hends ⊢
    rw [← hp] at hv
    refine ⟨fun e he => ?_, fun l hl => StoreCommand.error_of_listing hs hv hl⟩
    refine (StoreCommand.fails_of_answer hs hv he).imp (·.1.1) ?_
    rintro ⟨⟨e', rfl⟩, -⟩
    exact ⟨e', rfl, hends.blames _ he e' rfl⟩

/-- So is every other event, on a device that the placement is accepted for. -/
lemma Sound.answer_step [LawfulAddressable δ] (hx : x.Sound)
    (haccepts : ∀ d : δ,
      x.placement.accepts (FlashDevice.pageSize δ) (FlashDevice.capacity d) = true)
    (e : Event) :
    (∀ err, (x.step e.command).1 = .storeError err → err.isOrdinary = true ∨
      ∃ e', err = .device e' ∧ Refuses (x.step e.command).2.device e') ∧
    ∀ l, (x.step e.command).1 = .listing l → l.error = none := by
  cases e with
  | opening how =>
    show (∀ err, (x.step (.opening how none)).1 = .storeError err → err.isOrdinary = true ∨
      ∃ e', err = .device e' ∧ Refuses (x.step (.opening how none)).2.device e') ∧
      ∀ l, (x.step (.opening how none)).1 = .listing l → l.error = none
    obtain ⟨s, hs⟩ := attach_of_accepts (haccepts (opened how x.device))
    rw [step_opening, hs]
    dsimp only
    split
    · exact ⟨nofun, nofun⟩
    · exact (sound_of_attach hs).1.answer_call .recover
  | call command => exact hx.answer_call command
  | cutPowerAfter n => exact ⟨nofun, nofun⟩
  | restorePower => exact ⟨nofun, nofun⟩

end Sound

section Traced

variable {δ : Type} [FlashDevice δ] [LawfulFlash δ] [Addressable δ] [PowerControlled δ]
  {x : Session (Traced δ)}

lemma Sound.proper_call (hx : x.Sound) (h : x.device.Proper) (command : StoreCommand) :
    (x.step (.store command)).2.device.Proper := by
  cases hs : x.store? with
  | none =>
    rw [step_call_of_none hs]
    exact h
  | some s =>
    obtain ⟨-, k, hends, -⟩ := hx.call hs command
    rw [device_of_store? hs] at h
    rw [step_call hs]
    exact hends.continues.reaches.2 h

/-- Every event keeps the trace proper. -/
lemma Sound.proper_step (hx : x.Sound) (h : x.device.Proper) (e : Event) :
    (x.step e.command).2.device.Proper := by
  cases e with
  | opening how =>
    have hopened : (opened how x.device).Proper := by
      unfold opened
      split
      · exact h
      · exact h
    show (x.step (.opening how none)).2.device.Proper
    rw [step_opening]
    cases hs : attach (opened how x.device) x.placement with
    | error e => exact hopened
    | ok s =>
      obtain ⟨hsound, hdev⟩ := sound_of_attach hs
      have hproper : s.device.Proper := hdev.symm ▸ hopened
      dsimp only
      split
      · exact hproper
      · exact hsound.proper_call hproper .recover
  | call command => exact hx.proper_call h command
  | cutPowerAfter n =>
    show (x.setDevice _).device.Proper
    rw [device_setDevice]
    exact h
  | restorePower =>
    show (x.setDevice _).device.Proper
    rw [device_setDevice]
    exact h

lemma Sound.proper_play [LawfulPower δ] (hx : x.Sound) (h : x.device.Proper)
    (events : List Event) : (x.play events).device.Proper :=
  Sound.play_induction (A := fun _ => True) (P := fun x => x.device.Proper)
    (fun _ e hx _ h => hx.proper_step h e) hx h fun _ _ => trivial

end Traced

end Session

/-! ### NOR flash -/

variable {size page : Nat}

/-- The flash takes the call, given power: it is unprotected, the address is one of a word or page
of it, and a program only clears bits. -/
def NorFlash.Takes (d : NorFlash size page) : FlashCall → Prop
  | .program a w => d.locked = false ∧ a % 4 = 0 ∧ a + 4 ≤ size ∧ d.readWord a &&& w = w
  | .erase a => d.locked = false ∧ a % page = 0 ∧ a + page ≤ size

variable [NorFlash.WordPages page]

lemma NorFlash.takes_of_proper {d : NorFlash size page} {c : FlashCall} (h : c.Proper d) :
    d.Takes c := by
  have hcap := d.toNat_capacity_le
  cases c with
  | program a w =>
    obtain ⟨hu, ha, hs, hw⟩ := h
    exact ⟨hu, ha, by omega, hw⟩
  | erase a =>
    obtain ⟨hu, ha, hs⟩ := h
    rw [toNat_pageSize WordPages.lt] at ha hs
    exact ⟨hu, ha, by omega⟩

namespace Session

/-- On flash whose pages hold whole words, whatever it holds at first and wherever power is cut and
restored on the way, an event fails with an expected error or none, and no list of records is cut
short. With its calls traced the session is the same, and the flash takes every call that is made in
it. -/
theorem fails_as_expected (d : NorFlash size page) {p : Placement}
    (h : p.accepts (UInt32.ofNat page) (UInt32.ofNat size) = true) (events : List Event)
    (e : Event) :
    let x := (start d p).play events
    let y := (start (Traced.ofDevice d) p).play events
    (∀ err, (x.step e.command).1 = .storeError err → err.isExpected = true) ∧
    (∀ l, (x.step e.command).1 = .listing l → l.error = none) ∧
    y.untraced = x ∧ (y.step e.command).2.untraced = (x.step e.command).2 ∧
    ∀ c ∈ (y.step e.command).2.device.calls, c.1.Takes c.2 := by
  intro x y
  obtain ⟨hx, hp⟩ := (sound_start d p).play events
  obtain ⟨hy, -⟩ := (sound_start (Traced.ofDevice d) p).play events
  obtain ⟨herror, hlist⟩ := hx.answer_step (fun _ => hp.symm ▸ h) e
  have huntraced : y.untraced = x := (play_untraced events (start (Traced.ofDevice d) p)).symm
  refine ⟨fun err herr => ?_, hlist, huntraced, ?_, fun c hc => ?_⟩
  · unfold StoreError.isExpected
    rcases herror err herr with hord | ⟨e', rfl, rfl, -⟩
    · rw [hord, Bool.true_or]
    · rfl
  · rw [← huntraced, step_untraced]
  · have hproper : y.device.Proper :=
      (sound_start (Traced.ofDevice d) p).proper_play (by rintro c ⟨⟩) events
    exact NorFlash.takes_of_proper (hy.proper_step hproper e c hc)

/-- Power is cut in a write to flash that held a header and garbage at first: the flash has taken
the compaction before and all that was left of the write. -/
theorem fails_as_expected_of_cut_write :
    let d : NorFlash 80 20 := NorFlash.ofImage [0x74, 0x73, 0x61, 0x50, 7, 0, 0, 0, 1, 2, 3, 4, 9]
    let events := [.opening .mount, .call (.write 1 [5, 6, 7, 8]), .cutPowerAfter 2]
    let x := (start d ⟨0, 40, 40, 0⟩).play events
    let y := (start (Traced.ofDevice d) ⟨0, 40, 40, 0⟩).play events
    (x.step (.store (.write 1 [1, 2, 3, 4]))).1 ≠ .done ∧
    (∀ err, (x.step (.store (.write 1 [1, 2, 3, 4]))).1 = .storeError err →
      err.isExpected = true) ∧
    (y.step (.store (.write 1 [1, 2, 3, 4]))).2.device.calls.length = 12 ∧
    ∀ c ∈ (y.step (.store (.write 1 [1, 2, 3, 4]))).2.device.calls, c.1.Takes c.2 := by
  intro d events x y
  have haccepts : (⟨0, 40, 40, 0⟩ : Placement).accepts 20 80 = true := by decide
  obtain ⟨herror, -, -, -, htakes⟩ :=
    fails_as_expected d haccepts events (.call (.write 1 [1, 2, 3, 4]))
  exact ⟨by decide +kernel, herror, by decide +kernel, htakes⟩

/-- On flash whose pages hold whole words, when a command to a store in service fails, the error is
repairable exactly if the store is out of service then. A restart brings it back. -/
theorem repairable_iff_outOfService (d : NorFlash size page) (p : Placement)
    (events : List Event) {s : Store (NorFlash size page)}
    (h : ((start d p).play events).store? = some s) (hin : s.inService = true)
    {command : StoreCommand} {e : StoreError} (hfails : (command.run s).1 = .storeError e) :
    (e.isRepairable = true ↔ (command.run s).2.inService = false) ∧
      ((((start d p).play events).step (.store command)).2.step (.opening .reboot none)).1 =
        .done := by
  obtain ⟨hx, -⟩ := (sound_start d p).play events
  obtain ⟨hp, -, hs, hv⟩ := hx s h
  obtain ⟨hx', k, hends, -⟩ := hx.call h command
  rw [step_call h] at hx' hends ⊢
  constructor
  · rcases StoreCommand.fails_of_answer hs (hp ▸ hv) hfails with
      ⟨⟨hordinary, hservice⟩, hkept⟩ | ⟨⟨e', rfl⟩, hout⟩
    · have hne : e ≠ .outOfService := fun he => Bool.false_ne_true ((hservice he).symm.trans hin)
      have hnot : e.isRepairable = false := by
        cases e with
        | outOfService => exact absurd rfl hne
        | reservedId | tooShort | full | notFound | bufferTooSmall => rfl
        | misplaced | brokenChain | readBack | device => cases hordinary
      simp [hnot, hkept, hin]
    · obtain ⟨rfl, -⟩ := hends.blames _ hfails e' rfl
      exact iff_of_true rfl hout
  · have hhow : Opening.reboot ≠ .attach := nofun
    exact (simulated_opening hhow rfl (hx' _ rfl).accepts).1

end Session

end FlashStore
