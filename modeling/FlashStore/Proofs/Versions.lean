import FlashStore.Proofs.LastSaved
import FlashStore.Proofs.Rejections

/-!
# Recorded versions

A version is recorded byte for byte or not at all. Syncing one compares it with all of what is
stored for its image, so a prefix, an extension or a text that is too long is another version, and
only another version is written. What was synced is read back by every later store until the id is
written or erased again.
-/

namespace FlashStore

open LawfulFlash Store

/-! ### Texts -/

lemma fromUTF8?_eq_some_iff {bytes : ByteArray} {text : String} :
    String.fromUTF8? bytes = some text ↔ text.toUTF8 = bytes := by
  unfold String.fromUTF8?
  split
  · rw [Option.some.injEq]
    constructor
    · rintro rfl
      rfl
    · rintro rfl
      rfl
  · rename_i hinvalid
    refine ⟨nofun, ?_⟩
    rintro rfl
    exact absurd text.isValidUTF8 hinvalid

lemma fromUTF8?_eq_none_iff {bytes : ByteArray} :
    String.fromUTF8? bytes = none ↔ ¬ bytes.IsValidUTF8 := by
  unfold String.fromUTF8?
  split <;> simp [*]

lemma toUTF8_eq_iff {text : String} {data : List UInt8} :
    text.toUTF8 = ⟨data.toArray⟩ ↔ versionBytes text = data := by
  unfold versionBytes
  constructor
  · intro h
    rw [h]
  · rintro rfl
    rfl

namespace Firmware

variable {δ : Type} [FlashDevice δ] [LawfulFlash δ] {s : Store δ} {image : Firmware}
  {data : List UInt8} {version : String}

lemma isUsableId_versionId (image : Firmware) : isUsableId image.versionId = true :=
  Parameter.isUsableId_id (.version image)

/-! ### Reading -/

lemma storedVersion_of_none (hs : s.Serving) (h : s.values image.versionId = none) :
    image.storedVersion s = .ok none := by
  rw [storedVersion, hs.loadVersion_eq, h]

/-- A version that is stored is read unless it is too long or no text. -/
lemma storedVersion_eq (hs : s.Serving) (h : s.values image.versionId = some data) :
    image.storedVersion s =
      if 48 < data.length then .error .invalidLength
      else match String.fromUTF8? ⟨data.toArray⟩ with
        | some text => .ok (some text)
        | none => .error .invalidUtf8 := by
  rw [storedVersion, hs.loadVersion_eq, h]
  dsimp only
  by_cases hlong : maxVersionLength < data.length
  · rw [if_pos hlong]
    exact (if_pos hlong).symm
  · rw [if_neg hlong]
    exact (if_neg hlong).symm

/-- What is stored under the id of a version is too long, no text, or read as the text it is. -/
lemma storedVersion_iff (hs : s.Serving) (h : s.values image.versionId = some data) :
    (image.storedVersion s = .error .invalidLength ↔ 48 < data.length) ∧
    (image.storedVersion s = .error .invalidUtf8 ↔
      data.length ≤ 48 ∧ ¬ ByteArray.IsValidUTF8 ⟨data.toArray⟩) ∧
    ∀ text, image.storedVersion s = .ok (some text) ↔
      data.length ≤ 48 ∧ versionBytes text = data := by
  rw [storedVersion_eq hs h]
  by_cases hlong : 48 < data.length
  · simp [hlong, Nat.not_le.2 hlong]
  · rw [if_neg hlong, ← fromUTF8?_eq_none_iff]
    simp only [← toUTF8_eq_iff, ← fromUTF8?_eq_some_iff]
    cases String.fromUTF8? ⟨data.toArray⟩ <;> simp [hlong, Nat.not_lt.1 hlong]

/-! ### Syncing -/

/-- A version that is too short is refused, unless it is stored already. -/
lemma run_syncVersion_of_short (hs : s.Serving) (hshort : (versionBytes version).length < 4)
    (h : s.values image.versionId ≠ some (versionBytes version)) :
    (image.syncVersion version).run s = .error (.store .tooShort) s := by
  have hlen : (versionBytes version).length ≤ maxVersionLength := by
    unfold maxVersionLength
    omega
  have hrefused : checkWrite image.versionId (versionBytes version) s = _ :=
    checkWrite_of_not (.inr (.inl hshort))
  rw [(hs.saves_syncVersion image hlen).run_of_ne h, run_write_of_checkWrite hrefused]
  simp [isUsableId_versionId, minPayload, hshort]

/-- A version that is refused leaves what is stored. -/
lemma ensures_syncVersion (hs : s.Ready) (image : Firmware) (version : String) :
    Ensures (image.syncVersion version) s
      (fun _ s' => (versionBytes version).length ≤ 48 ∧
        s'.values image.versionId = some (versionBytes version))
      (fun _ s' => s'.values image.versionId = s.values image.versionId) := by
  by_cases hlen : (versionBytes version).length ≤ 48
  · refine Ensures.mono ((hs.serving.saves_syncVersion image hlen).ensures hs) ?_ ?_
    · rintro _ s' ⟨-, -, h⟩
      rw [h.values_eq]
      exact ⟨hlen, Function.update_self _ _ _⟩
    · rintro _ s' ⟨-, -, h⟩
      rw [h.values_eq]
  · exact .intro_error (run_syncVersion_of_lt (Nat.not_le.1 hlen) image) rfl

end Firmware

/-! ### Sessions -/

namespace Session

variable {size page : Nat} [NorFlash.WordPages page] {x : Session (NorFlash size page)}
  {s : Store (NorFlash size page)} {image : Firmware} {version : String}

/-- A run on powered flash that leaves an id alone keeps its value in service. -/
lemma Stands.play (hx : x.Stands s) {id : Word} {events : List Event}
    (he : ∀ e ∈ events, e.isUncut = true ∧ e.spares id = true) :
    ∃ t, (x.play events).Stands t ∧ t.values id = s.values id := by
  have hstands := hx.sound s hx.store?
  have hsimulated := hx.simulated.play hstands.accepts fun e h => (he e h).1
  obtain ⟨t, ht, -⟩ := hsimulated.stands
  refine ⟨t, ht, ?_⟩
  have hkept := hx.sound.get?_play fun e h => (he e h).2
  rw [persisted_of_store? ht.store?, persisted_of_store? hx.store?,
    ← (ht.sound t ht.store?).placement_eq, ← hstands.placement_eq] at hkept
  exact hkept

/-- A version that is stored is read, and it is not written again. -/
lemma Stands.synced (hx : x.Stands s) (hlen : (versionBytes version).length ≤ 48)
    (h : s.values image.versionId = some (versionBytes version)) :
    image.storedVersion s = .ok (some version) ∧
      x.step (.setting (.syncVersion image version)) = (.flag false, x) := by
  have hs := hx.ready.serving
  have hrun := (hs.saves_syncVersion image hlen).run_of_stored h
  exact ⟨hs.storedVersion_of_some hlen h,
    step_setting_of_run hx.store? (SettingM.answer_of_ok hrun _)⟩

/-- A sync stores its version or refuses it, and the version of the other image stays. -/
lemma Stands.sync (hx : x.Stands s) (image : Firmware) (version : String) :
    let a := x.step (.setting (.syncVersion image version))
    ∃ t, a.2.Stands t ∧
      ((∃ b, a.1 = .flag b) ∧ (versionBytes version).length ≤ 48 ∧
          t.values image.versionId = some (versionBytes version) ∨
        (∃ e, a.1 = .settingError e) ∧
          t.values image.versionId = s.values image.versionId) ∧
      ∀ other, other ≠ image → other.storedVersion t = other.storedVersion s := by
  intro a
  have hreset : SettingCommand.syncVersion image version ≠ .factoryReset := nofun
  obtain ⟨ht, -, -⟩ := hx.step_setting hreset
  refine ⟨_, ht, ?_, fun other hne => ?_⟩
  · have hsync := Firmware.ensures_syncVersion hx.ready image version
    show (∃ b, (x.step _).1 = _) ∧ _ ∨ (∃ e, (x.step _).1 = _) ∧ _
    rw [step_setting_of_store? hx.store?, SettingCommand.run]
    cases hrun : (image.syncVersion version).run s with
    | ok b t =>
      rw [SettingM.answer_of_ok hrun]
      exact .inl ⟨⟨b, rfl⟩, hsync.of_ok hrun⟩
    | error e t =>
      rw [SettingM.answer_of_error hrun]
      exact .inr ⟨⟨e, rfl⟩, hsync.of_error hrun⟩
  · refine hx.load_of_saves_eq_none hreset (q := .version other) ?_
    simp [SettingCommand.saves, hne]

/-- On powered flash whose pages hold whole words, whatever it held at first and whatever was stored
before: a version of more than 48 bytes is refused, and so is one of fewer than four, which no
well-formed value equals. Any other one is left alone if exactly its bytes are stored already,
written if there is room, and refused for want of room otherwise; a refusal keeps what is stored.
The version of the other image stays as it was. Once a sync has succeeded, the version is read back
and syncing it again changes nothing, also after any run of restarts, compactions and calls for
other ids. What is stored for an image is read as the text it is, unless it is longer than 48 bytes
or no text. -/
theorem version_synced_exactly (d : NorFlash size page) (p : Placement) {before : List Command}
    {s : Store (NorFlash size page)} (hs : (run before (start d p)).store? = some s)
    (hin : s.inService = true) (hpower : s.device.budget = none) (image : Firmware)
    (version : String) :
    let x := run before (start d p)
    let stored := s.contents.get? image.versionId
    let data := versionBytes version
    let a := x.step (.setting (.syncVersion image version))
    (48 < data.length → a = (.settingError .invalidLength, x)) ∧
    (data.length < 4 → (∀ old, stored = some old → 4 ≤ old.length) →
      a = (.settingError (.store .tooShort), x)) ∧
    (4 ≤ data.length → data.length ≤ 48 →
      (stored = some data → a = (.flag false, x)) ∧
      (stored ≠ some data →
        a.1 = if s.contents.span + recordSpan data.length ≤ s.block.capacity then .flag true
          else .settingError (.store .full))) ∧
    (∃ t, a.2.store? = some t ∧ t.inService = true ∧
      (∀ e, a.1 = .settingError e → t.contents.get? image.versionId = stored) ∧
      (∀ other, other ≠ image → other.storedVersion t = other.storedVersion s) ∧
      ∀ b, a.1 = .flag b → ∀ events : List Event,
        (∀ e ∈ events, e.isUncut = true ∧ e.spares image.versionId = true) →
        let y := a.2.play events
        ∃ u, y.store? = some u ∧ u.inService = true ∧ image.storedVersion u = .ok (some version) ∧
          y.step (.setting (.syncVersion image version)) = (.flag false, y)) ∧
    (stored = none → image.storedVersion s = .ok none) ∧
    ∀ old, stored = some old →
      (image.storedVersion s = .error .invalidLength ↔ 48 < old.length) ∧
      (image.storedVersion s = .error .invalidUtf8 ↔
        old.length ≤ 48 ∧ ¬ ByteArray.IsValidUTF8 ⟨old.toArray⟩) ∧
      ∀ text, image.storedVersion s = .ok (some text) ↔
        old.length ≤ 48 ∧ versionBytes text = old := by
  intro x stored data a
  have hx : x.Stands s := ((sound_start d p).run before).stands hs hin hpower
  have hready := hx.ready
  -- From here on the contents are what the values of the store say.
  have hstored : stored = s.values image.versionId := congrFun hready.contents_get? _
  rw [hstored]
  refine ⟨fun hlong => ?long, fun hshort hold => ?short, fun hmin hlen => ⟨?same, ?other⟩, ?after,
    fun h => Firmware.storedVersion_of_none hready.serving h,
    fun old h => Firmware.storedVersion_iff hready.serving h⟩
  case long =>
    exact step_setting_of_run hs (SettingM.answer_of_error
      (Firmware.run_syncVersion_of_lt hlong image) _)
  case short =>
    refine step_setting_of_run hs (SettingM.answer_of_error
      (Firmware.run_syncVersion_of_short hready.serving hshort fun h => ?_) _)
    -- Stored already it would not be refused, but nothing so short is.
    have hfour : 4 ≤ data.length := hold _ h
    omega
  case same => exact fun h => (hx.synced hlen h).2
  case other =>
    intro hne
    -- A version that is not stored is written, so all depends on the room for it.
    have hsaves := hready.serving.saves_syncVersion image hlen
    have hid := Firmware.isUsableId_versionId image
    show (x.step _).1 = _
    rw [step_setting_of_store? hs]
    split
    · rename_i hroom
      obtain ⟨s', hrun, -⟩ := hsaves.exists_run_of_room hready hid hmin hroom
      rw [decide_eq_true hne] at hrun
      exact congrArg Prod.fst (SettingM.answer_of_ok hrun _)
    · rename_i hfull
      obtain ⟨s', hrun, -⟩ := hsaves.exists_run_of_full hready hne hid hmin (Nat.not_le.1 hfull)
      exact congrArg Prod.fst (SettingM.answer_of_error hrun _)
  case after =>
    -- The session goes on whatever the answer. A refusal has kept the value, and after a success
    -- every run that spares the id keeps it.
    obtain ⟨t, ht, hsync, hother⟩ := hx.sync image version
    refine ⟨t, ht.store?, ht.ready.serves.inService, fun e he => ?kept, hother,
      fun b hb events hevents => ?later⟩
    case kept =>
      rw [ht.ready.contents_get?]
      obtain ⟨⟨b, hb⟩, -⟩ | ⟨-, hkept⟩ := hsync
      · cases hb.symm.trans he
      · exact hkept
    case later =>
      obtain ⟨-, hlen, hvalue⟩ | ⟨⟨e, he⟩, -⟩ := hsync
      · obtain ⟨u, hu, hkept⟩ := ht.play hevents
        exact ⟨u, hu.store?, hu.ready.serves.inService, hu.synced hlen (hkept.trans hvalue)⟩
      · cases hb.symm.trans he

/-- In blocks with room for two short versions, what is stored for the application is the new text
with one more byte, which is no text. It is replaced, and the new one outlasts a compaction and a
reboot; two bytes are too few, and there is no room for twelve. -/
theorem version_synced_exactly_over_no_text :
    let x : Session (NorFlash 80 20) := run [.opening .mount none,
      .store (.write Firmware.app.versionId [97, 98, 99, 100, 101, 102, 48, 255])]
      (start NorFlash.blank ⟨0, 40, 40, 0⟩)
    let a := x.step (.setting (.syncVersion .app "abcdef0"))
    (∃ s, x.store? = some s ∧ Firmware.app.storedVersion s = .error .invalidUtf8) ∧
      a.1 = .flag true ∧
      (∃ u, (a.2.play [.call .compact, .opening .reboot]).store? = some u ∧
        Firmware.app.storedVersion u = .ok (some "abcdef0")) ∧
      x.step (.setting (.syncVersion .app "v1")) = (.settingError (.store .tooShort), x) ∧
      (x.step (.setting (.syncVersion .app "abcdef012345"))).1 = .settingError (.store .full) := by
  intro x a
  have hbefore : x.store?.any (fun s => s.inService && s.device.budget.isNone &&
      s.contents == [⟨Firmware.app.versionId, [97, 98, 99, 100, 101, 102, 48, 255]⟩] &&
      s.block.capacity == 32) = true := by decide +kernel
  obtain ⟨s, hs, hs'⟩ := (Option.any_eq_true _ _).1 hbefore
  simp only [Bool.and_eq_true, Option.isNone_iff_eq_none, beq_iff_eq] at hs'
  obtain ⟨⟨⟨hin, hpower⟩, hcontents⟩, hcapacity⟩ := hs'
  have hstored : s.contents.get? Firmware.app.versionId =
      some [97, 98, 99, 100, 101, 102, 48, 255] := by
    rw [hcontents]
    decide
  have hspan : s.contents.span = 16 := by
    rw [hcontents]
    decide
  have hsync := @version_synced_exactly 80 20 _ NorFlash.blank _ _ s hs hin hpower .app
  obtain ⟨-, -, hwritten, ⟨t, ht, -, -, -, hlater⟩, -, hread⟩ := hsync "abcdef0"
  obtain ⟨-, hshort, -⟩ := hsync "v1"
  obtain ⟨-, -, hfull, -⟩ := hsync "abcdef012345"
  have hflag : a.1 = .flag true := by
    rw [(hwritten (by decide) (by decide)).2 (by rw [hstored]; decide), hspan, hcapacity]
    exact if_pos (by decide)
  obtain ⟨u, hu, -, hversion, -⟩ := hlater true hflag [.call .compact, .opening .reboot] (by decide)
  refine ⟨⟨s, hs, ((hread _ hstored).2.1).2 (by decide)⟩, hflag, ⟨u, hu, hversion⟩, ?_, ?_⟩
  · refine hshort (by decide) fun old hold => ?_
    obtain rfl := Option.some.inj (hstored.symm.trans hold)
    decide
  · rw [(hfull (by decide) (by decide)).2 (by rw [hstored]; decide), hspan, hcapacity]
    exact if_neg (by decide)

/-- Pages of two bytes let the second block start off a word boundary, where it takes no word. The
version that was synced fills the first block, so no restart succeeds and none is read back. -/
theorem unread_beside_unaligned_block :
    let p : Placement := ⟨0, 30, 20, 0⟩
    let x : Session (NorFlash 64 2) := run [.opening .mount none] (start NorFlash.blank p)
    let y := x.step (.setting (.syncVersion .boot "abcd"))
    p.accepts 2 64 = true ∧
      x.store?.map (fun s => (s.inService, s.device.budget)) = some (true, none) ∧
      y.1 = .flag true ∧ ∃ s, (y.2.step (.opening .reboot none)).2.store? = some s ∧
        Firmware.boot.storedVersion s = .error (.store .outOfService) := by
  intro p x y
  have hsuspended : (y.2.step (.opening .reboot none)).2.store?.map inService = some false := by
    decide +kernel
  obtain ⟨s, hs, hin⟩ := Option.map_eq_some_iff.1 hsuspended
  refine ⟨by decide, by decide +kernel, by decide +kernel, s, hs, ?_⟩
  rw [Firmware.storedVersion, Firmware.loadVersion, readInto_of_outOfService hin (by decide)]

end Session

end FlashStore
