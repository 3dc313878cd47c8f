import FlashStore.Proofs.SettingCalls

/-!
# Stores that cannot fail

In service on a device that never refuses, a store goes on being ready for the next operation. What
it stores under each id is all that loading depends on, and a write or an erase changes one value or
fails for a reason that the contents give.

Words and versions are saved alike: a value that is stored already is left alone, any other one is
written, and the answer says which. `SettingM.Saves` says so of an operation.
-/

namespace FlashStore

open LawfulFlash Store

/-! ### Values -/

/-- The value stored under each id. -/
abbrev Values := Word → Option (List UInt8)

/-- Putting a value assigns it. -/
lemma Contents.get?_put_eq_update (c : Contents) (id : Word) (data : List UInt8) :
    (c.put id data).get? = Function.update c.get? id (some data) := by
  funext id'
  by_cases hid : id' = id
  · rw [hid, Function.update_self, get?_put_self]
  · rw [Function.update_of_ne hid, get?_put_of_ne hid]

/-- Removing a value assigns none. -/
lemma Contents.get?_remove_eq_update (c : Contents) (id : Word) :
    (c.remove id).get? = Function.update c.get? id none := by
  funext id'
  by_cases hid : id' = id
  · rw [hid, Function.update_self, get?_remove_self]
  · rw [Function.update_of_ne hid, get?_remove_of_ne hid]

variable {δ : Type} [FlashDevice δ] {s s' : Store δ} {id : Word} {data : List UInt8}

/-- The value stored under each id. -/
def Store.values (s : Store δ) : Values := (s.placement.persisted s.word).get?

/-! ### Values saved unless stored -/

namespace SettingM

variable {x : SettingM δ Bool}

/-- From this store on, the operation stores a value under an id unless it is stored already, and
answers whether it was written. -/
def Saves (s : Store δ) (id : Word) (data : List UInt8) (x : SettingM δ Bool) : Prop :=
  x.run s =
    if s.values id = some data then .ok false s
    else (do onStore (write id data); return true : SettingM δ Bool).run s

lemma Saves.run_of_stored (hx : Saves s id data x) (h : s.values id = some data) :
    x.run s = .ok false s := by
  rw [hx, if_pos h]

lemma Saves.run_of_ne (hx : Saves s id data x) (h : s.values id ≠ some data) :
    x.run s =
      match (write id data).run s with
      | .ok () s' => .ok true s'
      | .error e s' => .error (.store e) s' := by
  rw [hx, if_neg h, EStateM.run_bind, run_onStore]
  cases (write id data).run s <;> rfl

/-- A word that is not stored is written. -/
lemma run_updateWord_of_ne {id value : Word} (h : loadWord id s ≠ .ok (some value)) :
    (updateWord id value : SettingM δ Bool).run s =
      (do saveWord id value; return true : SettingM δ Bool).run s := by
  simp only [updateWord, EStateM.run_bind, EStateM.run_get]
  cases hload : loadWord id s with
  | error e => rfl
  | ok stored =>
    cases stored with
    | none => rfl
    | some stored =>
      have hne : stored ≠ value := by
        rintro rfl
        exact h hload
      simp only [if_neg hne, EStateM.run_bind]

end SettingM

/-- Out of service no word is loaded. -/
lemma loadWord_of_outOfService (hin : s.inService = false) (hid : isUsableId id = true) :
    loadWord id s = .error (.store .outOfService) := by
  rw [loadWord, readInto_of_outOfService hin hid]

/-! ### Stores that cannot fail -/

variable [LawfulFlash δ] {value : Word}

namespace Store

/-- In service, whatever the device will do. -/
structure Serving (s : Store δ) : Prop where
  operable : s.Operable
  serves : s.view.Serves s.placement (s.placement.persisted s.word)

/-- In service on a device that never refuses. -/
structure Ready (s : Store δ) : Prop where
  operable : s.Operable
  healthy : s.Healthy
  serves : s.view.Serves s.placement (s.placement.persisted s.word)

lemma Ready.serving (hs : s.Ready) : s.Serving := ⟨hs.operable, hs.serves⟩

lemma Ready.contents_eq (hs : s.Ready) : s.contents = s.placement.persisted s.word :=
  contents_of_serves hs.operable hs.serves

lemma Ready.contents_get? (hs : s.Ready) : s.contents.get? = s.values := by
  rw [hs.contents_eq]
  rfl

/-- The second store is the first at a later time, ready and with these values. -/
structure Becomes (s : Store δ) (values : Values) (s' : Store δ) : Prop where
  ready : s'.Ready
  continues : ∃ k, s.Continues k s'
  values_eq : s'.values = values

lemma Ready.becomes_self (hs : s.Ready) : s.Becomes s.values s := ⟨hs, ⟨0, .refl s⟩, rfl⟩

lemma Becomes.trans {values values' : Values} {s'' : Store δ} (h : s.Becomes values s')
    (h' : s'.Becomes values' s'') : s.Becomes values' s'' := by
  obtain ⟨j, hj⟩ := h.continues
  obtain ⟨k, hk⟩ := h'.continues
  exact ⟨h'.ready, ⟨j + k, hj.trans hk⟩, h'.values_eq⟩

/-- A store that goes on to serve other contents stays ready. -/
lemma Ready.becomes {c : Contents} {k : Nat} (hs : s.Ready) (hs' : s'.Operable)
    (hk : s.Continues k s') (h : s'.view.Serves s.placement c) : s.Becomes c.get? s' := by
  have hp : s.placement = s'.placement := hk.placement_eq.symm
  have hc : s'.placement.persisted s'.word = c := hp ▸ h.persisted
  refine ⟨⟨hs', hk.healthy hs.healthy, ?_⟩, ⟨k, hk⟩, congrArg Contents.get? hc⟩
  rw [hc, ← hp]
  exact h

/-- A write stores its value and nothing else, or is refused for the reason that the contents
give. -/
lemma Ready.ensures_write (hs : s.Ready) (id : Word) (data : List UInt8) :
    let check := (s.placement.persisted s.word).checkPut s.block.capacity id data
    Ensures (write id data) s
      (fun _ s' => check = .ok () ∧ s.Becomes (Function.update s.values id (some data)) s')
      (fun e s' => check = .error e ∧ s.Becomes s.values s') := by
  refine Ensures.mono (FlashStore.ensures_write id data hs.operable hs.serves) ?_ ?_
  · rintro _ s' ⟨hs', k, hk, hcheck, h | ⟨-, e, he⟩⟩
    · have hput := (s.placement.persisted s.word).get?_put_eq_update id data
      exact ⟨hcheck, hput ▸ hs.becomes hs' hk h⟩
    · exact absurd he (hs.healthy k _ e hk.reaches)
  · rintro e s' ⟨hs', k, hk, hb, ⟨hcheck, h⟩ | ⟨⟨e', rfl⟩, -⟩⟩
    · exact ⟨hcheck, hs.becomes hs' hk h⟩
    · exact absurd (hb e' rfl) (hs.healthy k _ e' hk.reaches)

/-- Erasing removes the value under an id and nothing else. It is refused where there is none, or
for a reserved id. -/
lemma Ready.ensures_erase (hs : s.Ready) (id : Word) :
    Ensures (erase id) s
      (fun _ s' => s.Becomes (Function.update s.values id none) s')
      (fun e s' => s' = s ∧ (e = .notFound → s.values id = none)) := by
  cases hl : (s.placement.persisted s.word).lookup id with
  | error e =>
    have hfind := find_of_lookup_error hs.operable hs.serves hl
    refine .intro_error (run_erase_of_find hfind) ⟨rfl, ?_⟩
    rintro rfl
    exact get?_of_find_notFound hs.operable (View.Serves.valid hs.serves) hfind
  | ok data =>
    refine Ensures.mono (acts_erase hs.operable hs.serves hl) ?_ ?_
    · rintro _ s' ⟨hs', k, hk, -, h⟩
      have hremove := (s.placement.persisted s.word).get?_remove_eq_update id
      exact hremove ▸ hs.becomes hs' hk h
    · rintro e s' ⟨-, k, hk, hb, ⟨e', rfl⟩, -⟩
      exact absurd (hb e' rfl) (hs.healthy k _ e' hk.reaches)

end Store

/-! ### Reading values -/

/-- A value that is stored has a usable id. -/
lemma Store.Serving.isUsableId_of_values (hs : s.Serving) {data : List UInt8}
    (h : s.values id = some data) : isUsableId id = true :=
  hs.serves.consistent.isUsableId_of_get? h

/-- Copying a value to a buffer depends on that value only. -/
lemma Store.Serving.readInto_eq (hs : s.Serving) (id : Word) (buffer : List UInt8) :
    s.readInto id buffer =
      if isUsableId id then
        match s.values id with
        | some data =>
          if buffer.length < data.length then .error .bufferTooSmall
          else .ok (data.length, data ++ buffer.drop data.length)
        | none => .error .notFound
      else .error .reservedId := by
  rw [readInto_of_serves hs.operable hs.serves, Contents.readInto, Contents.lookup]
  show _ = if isUsableId id then match (s.placement.persisted s.word).get? id with
    | some data => _ | none => _ else _
  split
  · cases (s.placement.persisted s.word).get? id with
    | none => rfl
    | some data =>
      simp only [bind, Except.bind]
      split <;> rfl
  · rfl

/-- Loading a word depends on the value under its id only. -/
lemma Store.Serving.loadWord_eq (hs : s.Serving) (id : Word) :
    loadWord id s =
      if isUsableId id then
        match s.values id with
        | some data =>
          if data.length = 4 then .ok (some (Word.ofBytes data)) else .error .invalidLength
        | none => .ok none
      else .error (.store .reservedId) := by
  rw [loadWord, hs.readInto_eq, List.length_replicate]
  by_cases hid : isUsableId id = true
  · rw [if_pos hid, if_pos hid]
    cases s.values id with
    | none => rfl
    | some data =>
      dsimp only
      by_cases hlt : 4 < data.length
      · rw [if_pos hlt, if_neg (by omega)]
      · rw [if_neg hlt]
        dsimp only
        split
        · rename_i heq
          rw [heq, List.drop_eq_nil_of_le (by simp), List.append_nil]
        · rfl
  · rw [if_neg hid, if_neg hid]

lemma Store.Serving.loadWord_of_some (hs : s.Serving) (h : s.values id = some value.toBytes) :
    loadWord id s = .ok (some value) := by
  simp [hs.loadWord_eq, hs.isUsableId_of_values h, h]

lemma Store.Serving.loadWord_of_none (hs : s.Serving) (hid : isUsableId id = true)
    (h : s.values id = none) : loadWord id s = .ok none := by
  simp [hs.loadWord_eq, hid, h]

/-- Only a value of four bytes is loaded as a word. -/
lemma Store.Serving.values_of_loadWord (hs : s.Serving) (h : loadWord id s = .ok (some value)) :
    s.values id = some value.toBytes := by
  rw [hs.loadWord_eq] at h
  split at h
  · cases hv : s.values id with
    | none => simp [hv] at h
    | some data =>
      simp only [hv] at h
      split at h
      · rename_i heq
        match data, heq with
        | [b₀, b₁, b₂, b₃], _ =>
          have hword : Word.ofBytes [b₀, b₁, b₂, b₃] = value := by simpa using h
          rw [← hword, Word.toBytes_ofBytes]
      · cases h
  · cases h

/-- The bytes a version is stored as. -/
def versionBytes (version : String) : List UInt8 := version.toUTF8.data.toList

/-- Loading a version depends on the value under its id only. -/
lemma Store.Serving.loadVersion_eq (hs : s.Serving) (image : Firmware) :
    image.loadVersion s =
      match s.values image.versionId with
      | some data =>
        if Firmware.maxVersionLength < data.length then .error .bufferTooSmall
        else .ok (some data)
      | none => .ok none := by
  have hid : isUsableId image.versionId = true := Parameter.isUsableId_id (.version image)
  rw [Firmware.loadVersion, hs.readInto_eq, List.length_replicate, if_pos hid]
  cases s.values image.versionId with
  | none => rfl
  | some data =>
    dsimp only
    by_cases hlt : Firmware.maxVersionLength < data.length
    · rw [if_pos hlt, if_pos hlt]
    · rw [if_neg hlt, if_neg hlt]
      dsimp only
      rw [List.take_left]

lemma Store.Serving.storedVersion_of_some (hs : s.Serving) {image : Firmware} {version : String}
    (hlen : (versionBytes version).length ≤ Firmware.maxVersionLength)
    (h : s.values image.versionId = some (versionBytes version)) :
    image.storedVersion s = .ok (some version) := by
  have hvalid : String.fromUTF8? ⟨(versionBytes version).toArray⟩ = some version :=
    dif_pos version.isValidUTF8
  rw [Firmware.storedVersion, hs.loadVersion_eq, h]
  simp only [if_neg (Nat.not_lt.2 hlen), hvalid]

/-! ### Words and versions -/

lemma Store.Serving.saves_updateWord (hs : s.Serving) (id value : Word) :
    SettingM.Saves s id value.toBytes (updateWord id value) := by
  unfold SettingM.Saves
  by_cases h : s.values id = some value.toBytes
  · rw [if_pos h, run_updateWord_of_stored (hs.loadWord_of_some h)]
  · have hload : loadWord id s ≠ .ok (some value) := fun hload => h (hs.values_of_loadWord hload)
    rw [if_neg h, SettingM.run_updateWord_of_ne hload]
    rfl

/-- A version that is not too long is compared with all of what is stored. -/
lemma Store.Serving.isRecorded_eq (hs : s.Serving) (image : Firmware)
    (hlen : data.length ≤ Firmware.maxVersionLength) :
    image.isRecorded data s = .ok (decide (s.values image.versionId = some data)) := by
  rw [Firmware.isRecorded, hs.loadVersion_eq]
  cases s.values image.versionId with
  | none => simp
  | some stored =>
    by_cases hlt : Firmware.maxVersionLength < stored.length
    · have hne : stored ≠ data := by
        rintro rfl
        omega
      simp [hlt, hne]
    · simp only [if_neg hlt, beq_eq_decide]

lemma Store.Serving.saves_syncVersion (hs : s.Serving) (image : Firmware) {version : String}
    (hlen : (versionBytes version).length ≤ Firmware.maxVersionLength) :
    SettingM.Saves s image.versionId (versionBytes version) (image.syncVersion version) := by
  unfold SettingM.Saves Firmware.syncVersion
  unfold versionBytes at hlen ⊢
  simp only [if_neg (Nat.not_lt.2 hlen)]
  rw [EStateM.run_bind, run_onStore, run_query, hs.isRecorded_eq image hlen]
  by_cases h : s.values image.versionId = some version.toUTF8.data.toList
  · rw [if_pos h, decide_eq_true h]
    rfl
  · rw [if_neg h, decide_eq_false h]
    rfl

namespace SettingM

variable {x : SettingM δ Bool}

/-- On a store that is ready the answer says whether the value was written, and only its write can
fail. -/
lemma Saves.ensures (hx : Saves s id data x) (hs : s.Ready) :
    let check := (s.placement.persisted s.word).checkPut s.block.capacity id data
    Ensures x s
      (fun b s' => b = decide (s.values id ≠ some data) ∧
        (s.values id ≠ some data → check = .ok ()) ∧
        s.Becomes (Function.update s.values id (some data)) s')
      (fun e s' => s.values id ≠ some data ∧ (∃ e', e = .store e' ∧ check = .error e') ∧
        s.Becomes s.values s') := by
  intro check
  by_cases h : s.values id = some data
  · refine .intro_ok (hx.run_of_stored h) ⟨by simp [h], fun hne => absurd h hne, ?_⟩
    rw [← h, Function.update_eq_self]
    exact hs.becomes_self
  · have hwrite := hs.ensures_write id data
    have hrun := hx.run_of_ne h
    cases hw : (write id data).run s with
    | ok u s' =>
      obtain ⟨hcheck, hs'⟩ := hwrite.of_ok hw
      rw [hw] at hrun
      exact .intro_ok hrun ⟨by simp [h], fun _ => hcheck, hs'⟩
    | error e s' =>
      obtain ⟨hcheck, hs'⟩ := hwrite.of_error hw
      rw [hw] at hrun
      exact .intro_error hrun ⟨h, ⟨e, rfl, hcheck⟩, hs'⟩

/-- With room for the value, it is stored in the end. -/
lemma Saves.exists_run_of_room (hx : Saves s id data x) (hs : s.Ready)
    (hid : isUsableId id = true) (hmin : minPayload ≤ data.length)
    (hroom : s.contents.span + recordSpan data.length ≤ s.block.capacity) :
    ∃ s', x.run s = .ok (decide (s.values id ≠ some data)) s' ∧
      s.Becomes (Function.update s.values id (some data)) s' := by
  have hsaves := hx.ensures hs
  rw [hs.contents_eq] at hroom
  rw [Contents.checkPut_eq_ok_iff.2 ⟨hid, hmin, hroom⟩] at hsaves
  cases hrun : x.run s with
  | ok b s' =>
    obtain ⟨rfl, -, hs'⟩ := hsaves.of_ok hrun
    exact ⟨s', rfl, hs'⟩
  | error e s' =>
    obtain ⟨-, ⟨e', -, hcheck⟩, -⟩ := hsaves.of_error hrun
    cases hcheck

/-- Without room for another value, what is stored stays. -/
lemma Saves.exists_run_of_full (hx : Saves s id data x) (hs : s.Ready)
    (h : s.values id ≠ some data) (hid : isUsableId id = true) (hmin : minPayload ≤ data.length)
    (hfull : s.block.capacity < s.contents.span + recordSpan data.length) :
    ∃ s', x.run s = .error (.store .full) s' ∧ s.Becomes s.values s' := by
  have hsaves := hx.ensures hs
  rw [hs.contents_eq] at hfull
  rw [Contents.checkPut_of_lt hid hmin hfull] at hsaves
  cases hrun : x.run s with
  | ok b s' => cases (hsaves.of_ok hrun).2.1 h
  | error e s' =>
    obtain ⟨-, ⟨e', rfl, hcheck⟩, hs'⟩ := hsaves.of_error hrun
    obtain rfl := Except.error.inj hcheck
    exact ⟨s', rfl, hs'⟩

end SettingM

end FlashStore
