import FlashStore.Proofs.Untouched

/-!
# Upgrades

From the moment an upgrade is marked as started until it is finished the application is never
booted, whatever happens to the store and wherever power is cut; once it is finished the
application is booted whenever the store is in service. The mark is a value under an id of its own,
so it stays as it is through every command that neither formats the store nor names that id.
-/

namespace FlashStore

open LawfulFlash Store

/-! ### The id of the mark -/

/-- The id of a screen value holds the number of the screen and the low 24 bits of the key. -/
lemma Screen.toNat_id (screen : Screen) (key : Word) :
    (screen.id key).toNat = screen.number.toNat * 2 ^ 24 + key.toNat % 2 ^ 24 := by
  have hlt : screen.number.toNat * 2 ^ 24 < 2 ^ 32 :=
    Nat.mul_lt_mul_of_pos_right screen.number.toNat_lt (Nat.two_pow_pos 24)
  have hshift : (screen.number.toUInt32 <<< 24).toNat = screen.number.toNat * 2 ^ 24 := by
    rw [UInt32.toNat_shiftLeft, UInt8.toNat_toUInt32, Nat.shiftLeft_eq]
    exact Nat.mod_eq_of_lt hlt
  have hkey : (key &&& 0x00FFFFFF).toNat = key.toNat % 2 ^ 24 := by
    rw [UInt32.toNat_and]
    exact Nat.and_two_pow_sub_one_eq_mod key.toNat 24
  rw [id, screenId, UInt32.toNat_or, hshift, hkey, ← Nat.shiftLeft_eq,
    Nat.shiftLeft_add_eq_or_of_lt (Nat.mod_lt _ (Nat.two_pow_pos 24))]

/-- The ids of screen values are above those of the catalogue. -/
lemma Screen.two_pow_le_id (screen : Screen) (key : Word) : 2 ^ 24 ≤ (screen.id key).toNat := by
  have hpos : screen.number.toNat ≠ 0 := by
    intro h
    exact screen.number_ne_zero (UInt8.toNat_inj.1 h)
  rw [screen.toNat_id]
  omega

lemma Parameter.id_ne_markId {q : Parameter} (h : q ≠ .upgradeStarted) :
    q.id ≠ Upgrade.markId := by
  intro he
  exact h (Parameter.id_injective he)

namespace SettingCommand

/-- Whether a settings command leaves the upgrade mark alone. -/
def sparesMark : SettingCommand → Bool
  | startUpgrade | finishUpgrade | factoryReset => false
  | _ => true

/-- Only the upgrade commands name the id of the mark. -/
lemma ne_markId_of_mem_ids {command : SettingCommand} (h : command.sparesMark = true) {id : Word}
    (hid : id ∈ command.ids) : id ≠ Upgrade.markId := by
  have hcoefficient (c : Coefficient) : c.id ≠ Upgrade.markId := Parameter.id_ne_markId nofun
  cases command with
  | saveCalibration | clearCalibration =>
    obtain ⟨c, -, rfl⟩ := List.mem_map.1 hid
    exact hcoefficient c
  | saveCoefficient name x =>
    obtain ⟨c, -, rfl⟩ := List.mem_map.1 hid
    exact hcoefficient c
  | saveOutput o =>
    obtain rfl := List.mem_singleton.1 hid
    exact Parameter.id_ne_markId nofun
  | saveDisplay d =>
    rcases List.mem_cons.1 hid with rfl | hid
    · exact Parameter.id_ne_markId nofun
    · obtain rfl := List.mem_singleton.1 hid
      exact Parameter.id_ne_markId nofun
  | saveScreen number key value =>
    obtain ⟨screen, -, rfl⟩ := List.mem_map.1 hid
    -- The ids of screens lie above those of the catalogue.
    intro he
    have hle := screen.two_pow_le_id key
    rw [he] at hle
    exact absurd hle (by decide)
  | syncVersion image version =>
    obtain rfl := List.mem_singleton.1 hid
    exact Parameter.id_ne_markId nofun
  | startUpgrade | finishUpgrade | factoryReset => cases h
  | loadCalibration | loadOutput | loadDisplay | loadScreen | storedVersion | isUpgradePending
  | boot => cases hid

lemma spares_markId_of_makes {command : SettingCommand} (h : command.sparesMark = true)
    (call : StoreCommand) (hcall : command.Makes call) : call.spares Upgrade.markId = true := by
  cases call with
  | write id data => exact bne_iff_ne.2 (ne_markId_of_mem_ids h hcall)
  | erase id => exact bne_iff_ne.2 (ne_markId_of_mem_ids h hcall)
  | format =>
    obtain rfl : command = factoryReset := hcall
    cases h
  | recover | compact | compactIfLow | read | readInto | contains | reclaimable | list => rfl

end SettingCommand

/-- Whether a command leaves the upgrade mark alone: it does not format the store or move it
elsewhere, start or finish an upgrade, or store or erase a value under the id of the mark. -/
def Command.sparesMark : Command → Bool
  | opening _ placement => placement.isNone
  | store command => command.spares Upgrade.markId
  | setting command => command.sparesMark
  | cutPowerAfter _ | restorePower => true

/-! ### The upgrade commands -/

section Commands

variable {δ : Type}

/-- A settings operation that is a single call answers as the call does. -/
lemma answer_onStore (y : StoreM δ Unit) (s : Store δ) :
    (SettingM.answer (onStore y) (fun _ => .done) s).2 = (y.answer (fun _ => .done) s).2 ∧
      ((SettingM.answer (onStore y) (fun _ => .done) s).1 = .done →
        (y.answer (fun _ => .done) s).1 = .done) := by
  unfold SettingM.answer StoreM.answer
  rw [run_onStore]
  cases y.run s with
  | ok u s' => exact ⟨rfl, fun _ => rfl⟩
  | error e s' => exact ⟨rfl, nofun⟩

variable [FlashDevice δ]

/-- A removal that has nothing to remove succeeds. -/
lemma answer_removeWord (id : Word) (s : Store δ) :
    (SettingM.answer (removeWord id) (fun _ => .done) s).2 =
        ((Store.erase id).answer (fun _ => .done) s).2 ∧
      ((SettingM.answer (removeWord id) (fun _ => .done) s).1 = .done →
        ((Store.erase id).answer (fun _ => .done) s).1 = .done ∨
          ((Store.erase id).answer (fun _ => .done) s).1 = .storeError .notFound) := by
  unfold SettingM.answer StoreM.answer
  rw [SettingM.run_removeWord]
  cases (Store.erase id).run s with
  | ok u s' => exact ⟨rfl, fun _ => Or.inl rfl⟩
  | error e s' =>
    cases e with
    | notFound => exact ⟨rfl, fun _ => Or.inr rfl⟩
    | _ => exact ⟨rfl, nofun⟩

/-- The call that marks an upgrade as started. -/
def Upgrade.mark : StoreCommand := .write markId (1 : Word).toBytes

/-- The call that removes the mark. -/
def Upgrade.unmark : StoreCommand := .erase markId

lemma Upgrade.get?_effect_mark (c : Contents) :
    (mark.effect c).get? markId = some (1 : Word).toBytes := Contents.get?_put_self _ _ c

variable [Addressable δ] [PowerControlled δ]

namespace Session

lemma step_startUpgrade (x : Session δ) :
    (x.step (.setting .startUpgrade)).2 = (x.step (.store Upgrade.mark)).2 ∧
      ((x.step (.setting .startUpgrade)).1 = .done →
        (x.step (.store Upgrade.mark)).1 = .done) := by
  obtain ⟨p, d | s⟩ := x
  · exact ⟨rfl, nofun⟩
  · obtain ⟨hleave, hdone⟩ := answer_onStore (Store.write Upgrade.markId (1 : Word).toBytes) s
    exact ⟨congrArg (fun t => Session.mk p (.store t)) hleave, hdone⟩

lemma step_finishUpgrade (x : Session δ) :
    (x.step (.setting .finishUpgrade)).2 = (x.step (.store Upgrade.unmark)).2 ∧
      ((x.step (.setting .finishUpgrade)).1 = .done →
        (x.step (.store Upgrade.unmark)).1 = .done ∨
          (x.step (.store Upgrade.unmark)).1 = .storeError .notFound) := by
  obtain ⟨p, d | s⟩ := x
  · exact ⟨rfl, nofun⟩
  · obtain ⟨hleave, hdone⟩ := answer_removeWord Upgrade.markId s
    exact ⟨congrArg (fun t => Session.mk p (.store t)) hleave, hdone⟩

end Session

end Commands

/-! ### The mark over time -/

namespace Session

variable {δ : Type} [FlashDevice δ] [LawfulFlash δ] {x : Session δ}

/-- The mark of an upgrade on flash, if there is one. -/
def mark? (x : Session δ) : Option (List UInt8) := x.persisted.get? Upgrade.markId

/-- A store in service asks flash for the mark. -/
lemma Sound.isPending_eq (hx : x.Sound) {s : Store δ} (h : x.store? = some s)
    (hin : s.inService = true) : Upgrade.isPending s = .ok x.mark?.isSome := by
  have hcontains : s.contains Upgrade.markId = .ok x.mark?.isSome :=
    (contains_of_serves (hx s h).operable (hx.serves h hin) _).trans
      (if_pos (Parameter.isUsableId_id .upgradeStarted))
  rw [Upgrade.isPending, hcontains]

variable [Addressable δ] [PowerControlled δ]

/-- An upgrade that is started is marked. -/
lemma Sound.mark?_of_start (hx : x.Sound) (hdone : (x.step (.setting .startUpgrade)).1 = .done) :
    (x.step (.setting .startUpgrade)).2.mark?.isSome = true := by
  obtain ⟨hstep, hanswer⟩ := step_startUpgrade x
  rw [hstep, mark?, hx.persisted_of_done (hanswer hdone), Upgrade.get?_effect_mark]
  exact Option.isSome_some

/-- Starting an upgrade that is marked leaves it marked, interrupted or not. -/
lemma Sound.mark?_startUpgrade (hx : x.Sound) (h : x.mark?.isSome = true) :
    (x.step (.setting .startUpgrade)).2.mark?.isSome = true := by
  rw [(step_startUpgrade x).1, mark?]
  rcases hx.persisted_call Upgrade.mark rfl with hc | hc
  · rw [hc]
    exact h
  · rw [hc, Upgrade.get?_effect_mark]
    exact Option.isSome_some

/-- An upgrade that is finished is not marked any more. -/
lemma Sound.mark?_of_finish (hx : x.Sound) (hdone : (x.step (.setting .finishUpgrade)).1 = .done) :
    (x.step (.setting .finishUpgrade)).2.mark? = none := by
  obtain ⟨hstep, hanswer⟩ := step_finishUpgrade x
  rw [hstep, mark?]
  rcases hanswer hdone with hcall | hcall
  · rw [hx.persisted_of_done hcall]
    exact Contents.get?_remove_self _ _
  · exact hx.get?_of_notFound hcall

/-- Finishing an upgrade that is not marked does not mark it, interrupted or not. -/
lemma Sound.mark?_finishUpgrade (hx : x.Sound) (h : x.mark? = none) :
    (x.step (.setting .finishUpgrade)).2.mark? = none := by
  rw [(step_finishUpgrade x).1, mark?]
  rcases hx.persisted_erase Upgrade.markId with hc | hc | ⟨n, hc⟩
  · exact (congrArg (Contents.get? · _) hc).trans h
  · exact (congrArg (Contents.get? · _) hc).trans (Contents.get?_remove_self _ _)
  · exact (congrArg (Contents.get? · _) hc).trans (Contents.get?_blank_of_none h _ n)

variable [LawfulPower δ]

/-- The mark stays as it is under every command that leaves it alone. -/
lemma Sound.mark?_step (hx : x.Sound) {command : Command} (h : command.sparesMark = true) :
    (x.step command).2.mark? = x.mark? := by
  cases command with
  | opening how placement =>
    cases placement with
    | none => exact hx.get?_step (e := .opening how) rfl
    | some p => cases h
  | store command => exact hx.get?_step (e := .call command) h
  | setting command => exact hx.get?_setting (SettingCommand.spares_markId_of_makes h)
  | cutPowerAfter n => exact hx.get?_step (e := .cutPowerAfter n) rfl
  | restorePower => exact hx.get?_step (e := .restorePower) rfl

/-- From any state an upgrade that is marked stays marked until it is finished. -/
lemma Sound.mark?_run_isSome (hx : x.Sound) (h : x.mark?.isSome = true) {commands : List Command}
    (hcommands : ∀ command ∈ commands,
      command.sparesMark = true ∨ command = .setting .startUpgrade) :
    (Session.run commands x).mark?.isSome = true := by
  refine Sound.run_induction (P := fun x => x.mark?.isSome = true) ?_ hx h hcommands
  rintro x command hx (hspares | rfl) hmark
  · rw [hx.mark?_step hspares]
    exact hmark
  · exact hx.mark?_startUpgrade hmark

/-- An upgrade that is not marked is not marked until it is started. -/
lemma Sound.mark?_run_eq_none (hx : x.Sound) (h : x.mark? = none) {commands : List Command}
    (hcommands : ∀ command ∈ commands,
      command.sparesMark = true ∨ command = .setting .finishUpgrade) :
    (Session.run commands x).mark? = none := by
  refine Sound.run_induction (P := fun x => x.mark? = none) ?_ hx h hcommands
  rintro x command hx (hspares | rfl) hmark
  · rw [hx.mark?_step hspares]
    exact hmark
  · exact hx.mark?_finishUpgrade hmark

end Session

/-! ### Booting -/

namespace Session

variable {size page : Nat} [NorFlash.WordPages page]

/-- On flash whose pages hold whole words, whatever it held at first and whatever has happened to
the store before: once an upgrade is marked as started, no store that is open afterwards lets the
application boot, as long as the upgrade is not finished and the mark is left alone. Once it is
finished, every store in service does, as long as none is started and the mark is left alone. -/
theorem boots_unless_upgrading (d : NorFlash size page) (p : Placement) (before : List Command) :
    let x := run before (start d p)
    ((x.step (.setting .startUpgrade)).1 = .done → ∀ after : List Command,
      (∀ command ∈ after, command.sparesMark = true ∨ command = .setting .startUpgrade) →
        ∀ s, (run after (x.step (.setting .startUpgrade)).2).store? = some s →
          ∀ forced requested, BootAction.choose forced s requested ≠ .startApp) ∧
    ((x.step (.setting .finishUpgrade)).1 = .done → ∀ after : List Command,
      (∀ command ∈ after, command.sparesMark = true ∨ command = .setting .finishUpgrade) →
        ∀ s, (run after (x.step (.setting .finishUpgrade)).2).store? = some s →
          s.inService = true → BootAction.choose false s false = .startApp) := by
  intro x
  have hx : x.Sound := (sound_start d p).run before
  constructor
  · intro hdone after hafter s hs forced requested hboot
    obtain ⟨-, hin, -, hpending⟩ := BootAction.choose_eq_startApp_iff.1 hboot
    have hstart := hx.step_command (.setting .startUpgrade)
    have hmark := hstart.mark?_run_isSome (hx.mark?_of_start hdone) hafter
    rw [(hstart.run after).isPending_eq hs hin, hmark] at hpending
    cases hpending
  · intro hdone after hafter s hs hin
    have hfinish := hx.step_command (.setting .finishUpgrade)
    have hmark := hfinish.mark?_run_eq_none (hx.mark?_of_finish hdone) hafter
    refine BootAction.choose_eq_startApp_iff.2 ⟨rfl, hin, rfl, ?_⟩
    rw [(hfinish.run after).isPending_eq hs hin, hmark]
    rfl

/-- An upgrade outlasts a save that loses power and a restart, and ends when it is finished. -/
theorem boots_unless_upgrading_of_cut_save :
    let x := run [.opening .mount none] (start NorFlash.blank ⟨0, 40, 40, 0⟩ :
      Session (NorFlash 80 20))
    let upgrading := run [.cutPowerAfter 2, .setting (.saveOutput ⟨5000, 500⟩),
      .opening .reboot none] (x.step (.setting .startUpgrade)).2
    let upgraded := run [.opening .reboot none] (upgrading.step (.setting .finishUpgrade)).2
    (∃ s, upgrading.store? = some s ∧ s.inService = true ∧
      ∀ forced requested, BootAction.choose forced s requested ≠ .startApp) ∧
    ∃ s, upgraded.store? = some s ∧ BootAction.choose false s false = .startApp := by
  intro x upgrading upgraded
  have hinService (y : Session (NorFlash 80 20)) (hy : y.store?.map Store.inService = some true) :
      ∃ s, y.store? = some s ∧ s.inService = true := Option.map_eq_some_iff.1 hy
  obtain ⟨s, hs, hin⟩ := hinService upgrading (by decide +kernel)
  obtain ⟨s', hs', hin'⟩ := hinService upgraded (by decide +kernel)
  have hstart := (boots_unless_upgrading NorFlash.blank ⟨0, 40, 40, 0⟩ [.opening .mount none]).1
    (by decide +kernel) [.cutPowerAfter 2, .setting (.saveOutput ⟨5000, 500⟩),
      .opening .reboot none]
    (by simp [Command.sparesMark, SettingCommand.sparesMark]) s hs
  have hfinish := (boots_unless_upgrading NorFlash.blank ⟨0, 40, 40, 0⟩
    [.opening .mount none, .setting .startUpgrade, .cutPowerAfter 2,
      .setting (.saveOutput ⟨5000, 500⟩), .opening .reboot none]).2
    (by decide +kernel) [.opening .reboot none] (by simp [Command.sparesMark]) s' hs' hin'
  exact ⟨⟨s, hs, hin, hstart⟩, s', hs', hfinish⟩

end Session

end FlashStore
