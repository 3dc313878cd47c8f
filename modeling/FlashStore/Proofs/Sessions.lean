import FlashStore.Proofs.Accounting

/-!
# Events of a session

What happens to one store over time: it is opened and used, power is cut and restored.
`Session.play` runs a list of such events. All of them keep the session `Sound`: whatever store is
open is valid. What the next recovery would find on flash, `Session.persisted`, is changed by
calls of the store only.
-/

namespace FlashStore

open LawfulFlash Store

/-- A device whose words and write protection do not depend on power. -/
class LawfulPower (δ : Type) [FlashDevice δ] [LawfulFlash δ] [PowerControlled δ] : Prop where
  readWord_cutPowerAfter (n : Nat) (d : δ) :
    FlashDevice.readWord (PowerControlled.cutPowerAfter n d) = FlashDevice.readWord d
  readWord_restorePower (d : δ) :
    FlashDevice.readWord (PowerControlled.restorePower d) = FlashDevice.readWord d
  capacity_cutPowerAfter (n : Nat) (d : δ) :
    FlashDevice.capacity (PowerControlled.cutPowerAfter n d) = FlashDevice.capacity d
  capacity_restorePower (d : δ) :
    FlashDevice.capacity (PowerControlled.restorePower d) = FlashDevice.capacity d
  unlocked_cutPowerAfter {n : Nat} {d : δ} :
    Unlocked d → Unlocked (PowerControlled.cutPowerAfter n d)
  unlocked_restorePower {d : δ} : Unlocked d → Unlocked (PowerControlled.restorePower d)

instance {size page : Nat} [NorFlash.WordPages page] : LawfulPower (NorFlash size page) where
  readWord_cutPowerAfter _ _ := rfl
  readWord_restorePower _ := rfl
  capacity_cutPowerAfter _ _ := rfl
  capacity_restorePower _ := rfl
  unlocked_cutPowerAfter h := h
  unlocked_restorePower h := h

/-- A valid store at a placement that its device was checked against. -/
structure Store.StandsAt {δ : Type} [FlashDevice δ] [LawfulFlash δ] (s : Store δ)
    (p : Placement) : Prop where
  placement_eq : s.placement = p
  accepts : p.accepts (FlashDevice.pageSize δ) (FlashDevice.capacity s.device) = true
  operable : s.Operable
  valid : s.view.Valid p

/-! ### Events -/

/-- An event in the life of a store. -/
inductive Event where
  | opening (how : Opening)
  | call (command : StoreCommand)
  | cutPowerAfter (n : Nat)
  | restorePower

/-- The command that an event is for the session. -/
def Event.command : Event → Command
  | opening how => .opening how none
  | call command => .store command
  | cutPowerAfter n => .cutPowerAfter n
  | restorePower => .restorePower

/-- An event that recovers the store. -/
def Event.isRecovery : Event → Bool
  | opening .mount | opening .reboot | call .recover => true
  | _ => false

/-- The command was carried out. -/
def Answer.isDone : Answer → Bool
  | done => true
  | _ => false

lemma Answer.isDone_iff {a : Answer} : a.isDone = true ↔ a = .done := by
  cases a <;> simp [isDone]

instance : DecidableEq Calibration := fun cal cal' =>
  decidable_of_iff (∀ c ∈ Coefficient.all, cal c = cal' c)
    ⟨fun h => funext fun c => h c (Coefficient.mem_all c), fun h c _ => congrFun h c⟩

deriving instance DecidableEq for Answer

namespace Session

variable {δ : Type} {x : Session δ}

lemma placement_setDevice (d : δ) (x : Session δ) :
    (x.setDevice d).placement = x.placement := by
  obtain ⟨p, d' | s⟩ := x <;> rfl

lemma eq_of_store? {s : Store δ} (h : x.store? = some s) : x = ⟨x.placement, .store s⟩ := by
  obtain ⟨p, d | s'⟩ := x
  · cases h
  · obtain rfl := Option.some.inj h
    rfl

lemma device_of_store? {s : Store δ} (h : x.store? = some s) : x.device = s.device := by
  rw [eq_of_store? h]
  rfl

variable [FlashDevice δ]

/-- What the next recovery would find on flash. -/
def persisted (x : Session δ) : Contents := x.placement.persisted (FlashDevice.readWord x.device)

/-- A store is open and in service, with these contents. -/
def Holds (x : Session δ) (c : Contents) : Prop :=
  ∃ s, x.store? = some s ∧ s.inService = true ∧ s.contents = c

lemma holds_iff {c : Contents} :
    x.Holds c ↔ x.store?.map (fun s => (s.inService, s.contents)) = some (true, c) := by
  rw [Option.map_eq_some_iff]
  simp only [Holds, Prod.mk.injEq]

lemma Holds.unique {c c' : Contents} (h : x.Holds c) (h' : x.Holds c') : c = c' := by
  rw [holds_iff] at h h'
  exact (Prod.mk.inj (Option.some.inj (h.symm.trans h'))).2

instance (x : Session δ) (c : Contents) : Decidable (x.Holds c) :=
  decidable_of_iff _ holds_iff.symm

lemma persisted_of_store? {s : Store δ} (h : x.store? = some s) :
    x.persisted = x.placement.persisted s.word := by
  rw [eq_of_store? h]
  rfl

section Sound

variable [LawfulFlash δ]

/-- The open store, if any, stands where the session says, and is valid. -/
def Sound (x : Session δ) : Prop := ∀ s, x.store? = some s → s.StandsAt x.placement

lemma sound_start (d : δ) (p : Placement) : (start d p).Sound := nofun

/-- A sound session in service serves what is on flash. -/
lemma Sound.serves (hx : x.Sound) {s : Store δ} (h : x.store? = some s)
    (hin : s.inService = true) : s.view.Serves s.placement x.persisted := by
  rw [persisted_of_store? h, (hx s h).placement_eq]
  exact (hx s h).valid.serves hin

/-- A store in service holds what is on flash. -/
lemma Sound.holds (hx : x.Sound) {s : Store δ} (h : x.store? = some s)
    (hin : s.inService = true) : x.Holds x.persisted :=
  ⟨s, h, hin, contents_of_serves (hx s h).operable (hx.serves h hin)⟩

lemma Sound.persisted_of_holds (hx : x.Sound) {c : Contents} (h : x.Holds c) :
    x.persisted = c := by
  obtain ⟨s, hs, hin, rfl⟩ := h
  exact (contents_of_serves (hx s hs).operable (hx.serves hs hin)).symm

/-- A change of the device that does not show keeps the session sound. -/
lemma Sound.setDevice (hx : x.Sound) {d : δ}
    (hword : FlashDevice.readWord d = FlashDevice.readWord x.device)
    (hcap : FlashDevice.capacity d = FlashDevice.capacity x.device)
    (hu : Unlocked x.device → Unlocked d) :
    (x.setDevice d).Sound ∧ (x.setDevice d).persisted = x.persisted := by
  obtain ⟨p, d' | s⟩ := x
  · exact ⟨nofun, congrArg p.persisted hword⟩
  · obtain ⟨hp, haccepts, hs, hv⟩ := hx s rfl
    refine ⟨?_, congrArg p.persisted hword⟩
    rintro _ ⟨rfl⟩
    have haccepts' := hcap.symm ▸ haccepts
    refine ⟨hp, haccepts', ⟨?_, fun h => hu (hs.unlocked h), hs.first_le, hs.le_stop⟩, ?_⟩
    · show s.placement.Fits _ (FlashDevice.capacity d).toNat
      rw [hcap]
      exact hs.fits
    · intro hin
      show Consistent p (FlashDevice.readWord d) _ _ _
      rw [hword]
      exact hv hin

omit [LawfulFlash δ] in
lemma attach_of_accepts {d : δ} {p : Placement}
    (h : p.accepts (FlashDevice.pageSize δ) (FlashDevice.capacity d) = true) :
    ∃ s, attach d p = .ok s := by
  unfold attach
  rw [Placement.check_eq_ok_iff.2 h]
  exact ⟨_, rfl⟩

/-- A store that took over a device stands ready to be recovered. -/
lemma sound_of_attach {d : δ} {p : Placement} {s : Store δ} (h : attach d p = .ok s) :
    Sound ⟨p, .store s⟩ ∧ s.device = d := by
  obtain ⟨haccepts, rfl⟩ := attach_eq_ok h
  have hfits := Placement.fits_of_accepts haccepts
  have hroom := (hfits.regular pageSize_mod).first_add_le .a
  have hle : (p.block .a).first ≤ (p.block .a).stop := by omega
  refine ⟨?_, rfl⟩
  rintro _ ⟨rfl⟩
  exact ⟨rfl, haccepts, ⟨hfits, fun h => absurd rfl h, Nat.le_refl _, hle⟩, nofun⟩

end Sound

variable [Addressable δ] [PowerControlled δ]

/-- Let events happen one after another. -/
def play (events : List Event) (x : Session δ) : Session δ := run (events.map Event.command) x

@[simp] lemma play_nil (x : Session δ) : x.play [] = x := rfl

@[simp] lemma play_cons (e : Event) (events : List Event) (x : Session δ) :
    x.play (e :: events) = (x.step e.command).2.play events := rfl

lemma step_call {s : Store δ} (h : x.store? = some s) (command : StoreCommand) :
    x.step (.store command) =
      ((command.run s).1, ⟨x.placement, .store (command.run s).2⟩) := by
  rw [eq_of_store? h]
  rfl

lemma step_call_of_none (h : x.store? = none) (command : StoreCommand) :
    x.step (.store command) = (.noStore, x) := by
  obtain ⟨p, d | s⟩ := x
  · rfl
  · cases h

lemma persisted_step_call {s : Store δ} (h : x.store? = some s) (command : StoreCommand) :
    (x.step (.store command)).2.persisted = x.placement.persisted (command.run s).2.word := by
  rw [step_call h]
  rfl

/-- The device as a store that is opened finds it. -/
def opened (how : Opening) (d : δ) : δ :=
  if how = .reboot then PowerControlled.restorePower d else d

lemma step_opening (how : Opening) (x : Session δ) :
    x.step (.opening how none) =
      match attach (opened how x.device) x.placement with
      | .error e => (.storeError e, ⟨x.placement, .device (opened how x.device)⟩)
      | .ok s =>
        if how = .attach then (.done, ⟨x.placement, .store s⟩)
        else step (.store .recover) ⟨x.placement, .store s⟩ := by
  show openStore how none x = _
  unfold openStore
  change (match attach (opened how x.device) x.placement with | .error e => _ | .ok s => _) = _
  cases attach (opened how x.device) x.placement with
  | error e => rfl
  | ok s => cases how <;> rfl

lemma step_opening_of_attach {how : Opening} (hhow : how ≠ .attach) {s : Store δ}
    (h : attach (opened how x.device) x.placement = .ok s) :
    x.step (.opening how none) = step (.store .recover) ⟨x.placement, .store s⟩ := by
  rw [step_opening, h]
  exact if_neg hhow

variable [LawfulFlash δ]

lemma Sound.cutPowerAfter [LawfulPower δ] (hx : x.Sound) (n : Nat) :
    (x.step (.cutPowerAfter n)).2.Sound ∧
      (x.step (.cutPowerAfter n)).2.persisted = x.persisted :=
  hx.setDevice (LawfulPower.readWord_cutPowerAfter n _) (LawfulPower.capacity_cutPowerAfter n _)
    LawfulPower.unlocked_cutPowerAfter

lemma Sound.restorePower [LawfulPower δ] (hx : x.Sound) :
    (x.step .restorePower).2.Sound ∧ (x.step .restorePower).2.persisted = x.persisted :=
  hx.setDevice (LawfulPower.readWord_restorePower _) (LawfulPower.capacity_restorePower _)
    LawfulPower.unlocked_restorePower

/-- A call of an open store ends as commands do. -/
lemma Sound.call (hx : x.Sound) {s : Store δ} (h : x.store? = some s) (command : StoreCommand) :
    (x.step (.store command)).2.Sound ∧
      ∃ k, command.Ends s k (x.step (.store command)).1 (command.run s).2 ∧
        command.Accounted k (x.step (.store command)).1 x.persisted
          (x.step (.store command)).2.persisted := by
  obtain ⟨hp, haccepts, hs, hv⟩ := hx s h
  obtain ⟨k, hends⟩ := StoreCommand.run_accounted hs (hp ▸ hv) command
  have hcap := capacity_of_reaches hends.continues.reaches
  rw [persisted_of_store? h, step_call h, ← hp]
  refine ⟨?_, k, hends, hends.accounted⟩
  rintro _ ⟨rfl⟩
  exact ⟨hends.continues.placement_eq, hp ▸ hcap.symm ▸ haccepts, hends.operable, hends.valid⟩

/-- Unless it is a removal, a call has its effect on flash or none. -/
lemma Sound.persisted_call (hx : x.Sound) (command : StoreCommand)
    (hr : command.isRemoval = false) :
    (x.step (.store command)).2.persisted = x.persisted ∨
      (x.step (.store command)).2.persisted = command.effect x.persisted := by
  cases h : x.store? with
  | none =>
    rw [step_call_of_none h]
    exact Or.inl rfl
  | some s =>
    obtain ⟨-, k, -, hacc⟩ := hx.call h command
    exact hacc.eq_or_eq_effect hr

/-- A call that is done has its effect on flash. -/
lemma Sound.persisted_of_done (hx : x.Sound) {command : StoreCommand}
    (hdone : (x.step (.store command)).1 = .done) :
    (x.step (.store command)).2.persisted = command.effect x.persisted := by
  cases h : x.store? with
  | none =>
    rw [step_call_of_none h] at hdone
    cases hdone
  | some s =>
    obtain ⟨-, k, -, hacc⟩ := hx.call h command
    rw [hdone] at hacc
    exact hacc

/-- A recovery keeps what is on flash, whether it succeeds or not. -/
lemma Sound.persisted_recover (hx : x.Sound) :
    (x.step (.store .recover)).2.persisted = x.persisted := by
  rcases hx.persisted_call .recover rfl with h | h
  · exact h
  · exact h

omit [Addressable δ] in
lemma readWord_opened [LawfulPower δ] (how : Opening) (d : δ) :
    FlashDevice.readWord (opened how d) = FlashDevice.readWord d := by
  unfold opened
  split
  · exact LawfulPower.readWord_restorePower _
  · rfl

/-- Opening a store keeps what is on flash, whether its recovery succeeds or not. -/
lemma sound_opening [LawfulPower δ] (how : Opening) (x : Session δ) :
    (x.step (.opening how none)).2.Sound ∧
      (x.step (.opening how none)).2.placement = x.placement ∧
      (x.step (.opening how none)).2.persisted = x.persisted := by
  have hpers : x.persisted =
      x.placement.persisted (FlashDevice.readWord (opened how x.device)) := by
    rw [readWord_opened]
    rfl
  rw [step_opening, hpers]
  cases h : attach (opened how x.device) x.placement with
  | error e => exact ⟨sound_start _ _, rfl, rfl⟩
  | ok s =>
    obtain ⟨hsound, hdev⟩ := sound_of_attach h
    dsimp only
    rw [← hdev]
    split
    · exact ⟨hsound, rfl, rfl⟩
    · exact ⟨(hsound.call rfl .recover).1, rfl, hsound.persisted_recover⟩

/-- Every event keeps a session sound. -/
lemma Sound.step [LawfulPower δ] (hx : x.Sound) (e : Event) :
    (x.step e.command).2.Sound ∧ (x.step e.command).2.placement = x.placement := by
  cases e with
  | opening how => exact ⟨(sound_opening how x).1, (sound_opening how x).2.1⟩
  | call command =>
    show (x.step (.store command)).2.Sound ∧ (x.step (.store command)).2.placement = x.placement
    cases h : x.store? with
    | none => rw [step_call_of_none h]; exact ⟨hx, rfl⟩
    | some s => exact ⟨(hx.call h command).1, by rw [step_call h]⟩
  | cutPowerAfter n => exact ⟨hx.cutPowerAfter n |>.1, placement_setDevice _ _⟩
  | restorePower => exact ⟨hx.restorePower.1, placement_setDevice _ _⟩

/-- Every session of one store is sound. -/
theorem Sound.play [LawfulPower δ] (hx : x.Sound) (events : List Event) :
    (x.play events).Sound ∧ (x.play events).placement = x.placement := by
  induction events generalizing x with
  | nil => exact ⟨hx, rfl⟩
  | cons e events ih =>
    obtain ⟨hx', hp⟩ := hx.step e
    obtain ⟨hplay, hp'⟩ := ih hx'
    exact ⟨hplay, hp'.trans hp⟩

/-- What events of a kind keep of sound sessions, runs of them keep. -/
theorem Sound.play_induction [LawfulPower δ] {A : Event → Prop} {P : Session δ → Prop}
    (hstep : ∀ x e, x.Sound → A e → P x → P (x.step e.command).2) (hx : x.Sound) (h : P x)
    {events : List Event} (he : ∀ e ∈ events, A e) : P (x.play events) := by
  induction events generalizing x with
  | nil => exact h
  | cons e events ih =>
    have hfirst := hstep x e hx (he e List.mem_cons_self) h
    exact ih (hx.step e).1 hfirst fun e' he' => he e' (List.mem_cons_of_mem _ he')

/-! ### Recoveries -/

/-- Once a store has been recovered it is in service. -/
lemma Sound.inService_of_recover (hx : x.Sound) {s : Store δ} (h : x.store? = some s)
    (hdone : (x.step (.store .recover)).1 = .done) :
    ∃ s', (x.step (.store .recover)).2.store? = some s' ∧ s'.inService = true := by
  rw [step_call h] at hdone ⊢
  rcases answer_of_ensures (acts_recover (hx s h).operable) fun _ => .done with
    ⟨_, s', ha, -, k, -, hserves⟩ | ⟨e, s', ha, -⟩
  · exact ⟨s', by rw [StoreCommand.run, ha]; rfl, hserves.inService⟩
  · rw [StoreCommand.run, ha] at hdone
    cases hdone

lemma inService_of_opening {how : Opening} (hhow : how ≠ .attach)
    (hdone : (x.step (.opening how none)).1 = .done) :
    ∃ s', (x.step (.opening how none)).2.store? = some s' ∧ s'.inService = true := by
  cases h : attach (opened how x.device) x.placement with
  | error e =>
    rw [step_opening, h] at hdone
    cases hdone
  | ok s =>
    rw [step_opening_of_attach hhow h] at hdone ⊢
    exact (sound_of_attach h).1.inService_of_recover rfl hdone

/-- A recovery that succeeds puts the store in service. -/
lemma Sound.inService_of_done (hx : x.Sound) {e : Event} (he : e.isRecovery = true)
    (hdone : (x.step e.command).1 = .done) :
    ∃ s, (x.step e.command).2.store? = some s ∧ s.inService = true := by
  unfold Event.isRecovery at he
  split at he
  · exact inService_of_opening nofun hdone
  · exact inService_of_opening nofun hdone
  · cases h : x.store? with
    | none =>
      have hnone : (x.step (.store .recover)).1 = .noStore := by rw [step_call_of_none h]
      cases hnone.symm.trans hdone
    | some s => exact hx.inService_of_recover h hdone
  · cases he

end Session

end FlashStore
