import FlashStore.Proofs.LastSaved
import FlashStore.Proofs.Rejections

/-!
# Values of screens

The ids of screen values are packed from a screen number and the low bits of a key. They meet
neither each other nor the catalogue, so screens can keep values side by side. But the topmost of
them, the last key of screen 255, is the id that marks erased flash: that one value is refused, and
every other one can be stored where there is room for a word.
-/

namespace FlashStore

open LawfulFlash Store

namespace Screen

lemma ofNumber?_number (screen : Screen) : ofNumber? screen.number = some screen :=
  dif_pos screen.number_ne_zero

/-- The key is the last one of the last screen, up to the bits that ids leave out. -/
def IsLast (screen : Screen) (key : Word) : Prop :=
  screen.number = 255 ∧ key.toNat % 2 ^ 24 = 2 ^ 24 - 1

instance (screen : Screen) (key : Word) : Decidable (screen.IsLast key) :=
  inferInstanceAs (Decidable (_ ∧ _))

lemma id_eq_vacantId_iff {screen : Screen} {key : Word} :
    screen.id key = vacantId ↔ screen.IsLast key := by
  have hid := screen.toNat_id key
  have hnumber := screen.number.toNat_lt
  have hvacant : vacantId.toNat = 2 ^ 32 - 1 := by decide
  rw [← UInt32.toNat_inj, hid, hvacant, IsLast, ← UInt8.toNat_inj]
  show _ ↔ screen.number.toNat = 255 ∧ _
  omega

/-- Every id of a screen value is usable but the topmost. -/
lemma isUsableId_id_iff {screen : Screen} {key : Word} :
    isUsableId (screen.id key) = true ↔ ¬ screen.IsLast key := by
  have hremoved : screen.id key ≠ removedId := by
    intro he
    have hle := screen.two_pow_le_id key
    rw [he] at hle
    exact absurd hle (by decide)
  rw [isUsableId_iff, Ne, Ne, id_eq_vacantId_iff]
  exact and_iff_right hremoved

/-- No screen value has an id of the catalogue. -/
lemma ofId?_id (screen : Screen) (key : Word) : Parameter.ofId? (screen.id key) = none := by
  refine List.find?_eq_none.2 fun parameter _ => ?_
  simpa using parameter.id_ne_screenId screen key

variable {δ : Type} [FlashDevice δ] {s : Store δ}

lemma run_saveScreen (screen : Screen) (key value : Word) (s : Store δ) :
    (SettingCommand.saveScreen screen.number key value).run s =
      SettingM.answer (screen.save key value) .flag s := by
  simp only [SettingCommand.run, ofNumber?_number]

lemma run_loadScreen (screen : Screen) (key : Word) (s : Store δ) :
    (SettingCommand.loadScreen screen.number key).run s =
      (.ofSetting .word (screen.load key s), s) := by
  simp only [SettingCommand.run, ofNumber?_number]

variable [LawfulFlash δ] {screen : Screen} {key : Word}

/-- With room for a word, every value but the last one is stored and read back. -/
lemma exists_run_save (hs : s.Ready) (hlast : ¬ screen.IsLast key)
    (hroom : s.contents.span + 12 ≤ s.block.capacity) (value : Word) :
    ∃ b s', (screen.save key value).run s = .ok b s' ∧
      screen.load key s' = .ok (some value) := by
  have hsaves := hs.serving.saves_updateWord (screen.id key) value
  have hspan : recordSpan value.toBytes.length = 12 := by
    rw [Word.length_toBytes]
    decide
  obtain ⟨s', hrun, hs'⟩ := hsaves.exists_run_of_room hs (isUsableId_id_iff.2 hlast)
    (Nat.le_refl _) (hspan ▸ hroom)
  refine ⟨_, s', hrun, hs'.ready.serving.loadWord_of_some ?_⟩
  rw [hs'.values_eq, Function.update_self]

/-- The last value is neither stored nor looked for. -/
lemma run_save_of_isLast (hs : s.Serving) (hlast : screen.IsLast key) (value : Word) :
    (screen.save key value).run s = .error (.store .reservedId) s ∧
      screen.load key s = .error (.store .reservedId) := by
  have hid : ¬ isUsableId (screen.id key) = true := fun h => isUsableId_id_iff.1 h hlast
  have hne : s.values (screen.id key) ≠ some value.toBytes := fun h =>
    hid (hs.isUsableId_of_values h)
  have hreserved : checkWrite (screen.id key) value.toBytes s = _ :=
    checkWrite_of_not (.inl (by simpa using hid))
  constructor
  · rw [save, (hs.saves_updateWord (screen.id key) value).run_of_ne hne,
      run_write_of_checkWrite hreserved]
    simp [hid]
  · rw [load, hs.loadWord_eq, if_neg hid]

end Screen

/-! ### Sessions -/

namespace Session

variable {size page : Nat} [NorFlash.WordPages page] {x : Session (NorFlash size page)}
  {s : Store (NorFlash size page)} {screen : Screen} {key : Word}

/-- Saving the last value is refused, and so is loading it. -/
lemma Stands.refuses_last (hx : x.Stands s) (hlast : screen.IsLast key) (value : Word) :
    x.step (.setting (.saveScreen screen.number key value)) =
        (.settingError (.store .reservedId), x) ∧
      x.step (.setting (.loadScreen screen.number key)) =
        (.settingError (.store .reservedId), x) := by
  obtain ⟨hsave, hload⟩ := Screen.run_save_of_isLast hx.ready.serving hlast value
  constructor
  · apply step_setting_of_run hx.store?
    rw [screen.run_saveScreen, SettingM.answer_of_error hsave]
  · apply step_setting_of_run hx.store?
    rw [screen.run_loadScreen, hload]
    rfl

/-- With room for a word, saving any other value succeeds, and it is loaded then. -/
lemma Stands.saves_screen (hx : x.Stands s) (hlast : ¬ screen.IsLast key)
    (hroom : s.contents.span + 12 ≤ s.block.capacity) (value : Word) :
    let a := x.step (.setting (.saveScreen screen.number key value))
    ∃ b, a.1 = .flag b ∧
      (a.2.step (.setting (.loadScreen screen.number key))).1 = .word (some value) := by
  obtain ⟨b, s', hsave, hload⟩ := Screen.exists_run_save hx.ready hlast hroom value
  refine ⟨b, ?_, ?_⟩
  all_goals rw [step_setting_of_store? hx.store?, screen.run_saveScreen,
    SettingM.answer_of_ok hsave]
  rw [step_setting_of_store? rfl, screen.run_loadScreen, hload]
  rfl

/-- Screens are the numbers from 1. Their values have ids outside the catalogue, and only one id
each up to the top byte of the key. On powered flash with room for a word, whose pages hold whole
words, whatever it held at first and whatever was stored before, a value is saved and loaded if and
only if it is not the last one of screen 255; that one is refused for its id, which marks erased
flash, and nothing changes. -/
theorem screen_value_stored_iff (d : NorFlash size page) (p : Placement) {before : List Command}
    {s : Store (NorFlash size page)} (hs : (run before (start d p)).store? = some s)
    (hin : s.inService = true) (hpower : s.device.budget = none)
    (hroom : s.contents.span + 12 ≤ s.block.capacity) (screen : Screen) (key value : Word) :
    let x := run before (start d p)
    let a := x.step (.setting (.saveScreen screen.number key value))
    (∀ number : UInt8, number ≠ 0 →
      ∃ screen' : Screen, Screen.ofNumber? number = some screen' ∧ screen'.number = number) ∧
    (isUsableId (screen.id key) = true ↔
      ¬ (screen.number = 255 ∧ key.toNat % 2 ^ 24 = 2 ^ 24 - 1)) ∧
    Parameter.ofId? (screen.id key) = none ∧
    (∀ screen' key', screen.id key = screen'.id key' ↔
      screen = screen' ∧ key.toNat % 2 ^ 24 = key'.toNat % 2 ^ 24) ∧
    ((∃ b, a.1 = .flag b ∧
        (a.2.step (.setting (.loadScreen screen.number key))).1 = .word (some value)) ↔
      ¬ (screen.number = 255 ∧ key.toNat % 2 ^ 24 = 2 ^ 24 - 1)) ∧
    (screen.number = 255 ∧ key.toNat % 2 ^ 24 = 2 ^ 24 - 1 →
      a = (.settingError (.store .reservedId), x) ∧
        x.step (.setting (.loadScreen screen.number key)) =
          (.settingError (.store .reservedId), x)) := by
  intro x a
  have hx : x.Stands s := ((sound_start d p).run before).stands hs hin hpower
  refine ⟨fun number hnumber => ⟨⟨number, hnumber⟩, dif_pos hnumber, rfl⟩,
    Screen.isUsableId_id_iff, screen.ofId?_id key, fun screen' key' => Screen.id_eq_iff,
    ⟨?_, fun hlast => hx.saves_screen hlast hroom value⟩, fun hlast => hx.refuses_last hlast value⟩
  rintro ⟨b, hsaved, -⟩ hlast
  have hrefused : a.1 = _ := congrArg Prod.fst (hx.refuses_last hlast value).1
  cases hrefused.symm.trans hsaved

/-- A key with bits above those that ids have is saved and loaded. -/
theorem screen_value_stored_of_long_key :
    let x : Session (NorFlash 80 20) :=
      run [.opening .mount none] (start NorFlash.blank ⟨0, 40, 40, 0⟩)
    let a := x.step (.setting (.saveScreen 255 0x01000007 42))
    ∃ b, a.1 = .flag b ∧ (a.2.step (.setting (.loadScreen 255 0x01000007))).1 = .word (some 42) := by
  intro x a
  have hmounted : x.store?.any (fun s => s.inService && s.device.budget.isNone &&
      decide (s.contents.span + 12 ≤ s.block.capacity)) = true := by decide +kernel
  obtain ⟨s, hs, hs'⟩ := (Option.any_eq_true _ _).1 hmounted
  simp only [Bool.and_eq_true, Option.isNone_iff_eq_none, decide_eq_true_eq] at hs'
  obtain ⟨⟨hin, hpower⟩, hroom⟩ := hs'
  obtain ⟨-, -, -, -, hstored, -⟩ := @screen_value_stored_iff 80 20 _ NorFlash.blank _ _ s hs hin
    hpower hroom ⟨255, by decide⟩ 0x01000007 42
  exact hstored.2 (by decide)

/-- An empty store with room for a word refuses the last value of screen 255. In pages of two bytes
it can also fail on another one, as the second block may start off a word boundary, where it takes
no word: the room is left by a value that was removed, and the compaction for it fails. -/
theorem last_screen_value_refused :
    (let p : Placement := ⟨0, 20, 20, 0⟩
      let x : Session (NorFlash 40 20) := run [.opening .mount none] (start NorFlash.blank p)
      x.store?.map (fun s => (s.inService, s.device.budget, s.contents.span, s.block.capacity)) =
        some (true, none, 0, 12) ∧
      isUsableId (screenId 255 0x00FFFFFF) = false ∧
      (x.step (.setting (.saveScreen 255 0x00FFFFFF 7))).1 = .settingError (.store .reservedId) ∧
      (x.step (.setting (.loadScreen 255 0x00FFFFFF))).1 =
        .settingError (.store .reservedId)) ∧
    let p : Placement := ⟨0, 30, 20, 0⟩
    let x : Session (NorFlash 64 2) :=
      run [.opening .mount none, .store (.write 1 [1, 2, 3, 4]), .store (.erase 1)]
        (start NorFlash.blank p)
    p.accepts 2 64 = true ∧
      x.store?.map (fun s => (s.inService, s.device.budget, s.contents.span, s.block.capacity)) =
        some (true, none, 0, 12) ∧
      (x.step (.setting (.saveScreen 1 0 7))).1 =
        .settingError (.store (.device .unaligned)) := by
  constructor
  · intro p x
    exact ⟨by decide +kernel, by decide, by decide +kernel, by decide +kernel⟩
  · intro p x
    exact ⟨by decide, by decide +kernel, by decide +kernel⟩

end Session

end FlashStore
