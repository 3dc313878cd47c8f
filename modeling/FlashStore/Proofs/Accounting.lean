import FlashStore.Proofs.Commands

/-!
# Accounting for commands

On a device that may fail, every command to a valid store is accounted for: one that succeeds has
its effect, one that the device interrupts has its effect or none, and one that is refused has
none. Only an interrupted erase or format may leave anything else.
-/

namespace FlashStore

open LawfulFlash Store

variable {δ α : Type} [FlashDevice δ] [LawfulFlash δ] {s : Store δ} {c c' : Contents} {k : Nat}

/-! ### Valid stores -/

/-- What a store in service keeps in memory agrees with flash. -/
def View.Valid (p : Placement) (v : View) : Prop :=
  v.inService = true → Consistent p v.word v.current v.generation v.cursor

lemma View.Serves.valid {p : Placement} {v : View} (h : v.Serves p c) : v.Valid p :=
  fun _ => h.consistent

lemma View.Suspended.valid {p : Placement} {v : View} (h : v.Suspended p c) : v.Valid p := by
  intro hin
  rw [h.inService] at hin
  cases hin

/-- A valid store in service serves what is on flash. -/
lemma View.Valid.serves {p : Placement} {v : View} (h : v.Valid p) (hin : v.inService = true) :
    v.Serves p (p.persisted v.word) :=
  ⟨hin, h hin, rfl⟩

omit [LawfulFlash δ] in
lemma inService_of_find (id : Word) (hr : find id s ≠ .error .reservedId)
    (ho : find id s ≠ .error .outOfService) : s.inService = true := by
  by_contra hin
  rw [find_eq, Bool.eq_false_iff.2 hin] at hr ho
  split at hr
  · exact hr rfl
  · rename_i hid
    rw [if_neg hid] at ho
    exact ho rfl

/-- A record is found in a store in service only, and under an id that has a value. -/
lemma exists_lookup_of_find {id : Word} {r : Record} (hs : s.Operable)
    (hv : s.view.Valid s.placement) (hfind : find id s = .ok r) :
    s.inService = true ∧ ∃ data, (s.placement.persisted s.word).lookup id = .ok data := by
  have hin : s.inService = true := by
    apply inService_of_find id
    · rw [hfind]
      exact nofun
    · rw [hfind]
      exact nofun
  refine ⟨hin, ?_⟩
  cases hl : (s.placement.persisted s.word).lookup id with
  | ok data => exact ⟨data, rfl⟩
  | error e =>
    rw [find_of_lookup_error hs (hv.serves hin) hl] at hfind
    cases hfind

/-- Where no record is found there is no value. -/
lemma get?_of_find_notFound {id : Word} (hs : s.Operable) (hv : s.view.Valid s.placement)
    (hfind : find id s = .error .notFound) : (s.placement.persisted s.word).get? id = none := by
  have hin : s.inService = true := by
    apply inService_of_find id
    · rw [hfind]
      exact nofun
    · rw [hfind]
      exact nofun
  have hcontains := contains_of_serves hs (hv.serves hin) id
  rw [contains_eq_false_iff.2 hfind, Contents.contains] at hcontains
  split at hcontains
  · have hnone := Option.isSome_eq_false_iff.1 (Except.ok.inj hcontains).symm
    exact Option.isNone_iff_eq_none.1 hnone
  · cases hcontains

/-! ### Ends of commands -/

namespace StoreCommand

variable {command : StoreCommand} {a : Answer}

/-- A command that clears what it removes before it is done. -/
def isRemoval : StoreCommand → Bool
  | erase _ | format => true
  | _ => false

/-- How the contents after a command follow from its answer, after so many programs and erases. -/
def Accounted (command : StoreCommand) (k : Nat) (a : Answer) (c c' : Contents) : Prop :=
  match a with
  | .storeError (.device _) =>
    c' = c ∨ c' = command.effect c ∨ command.isRemoval = true ∧ k ≠ 0
  | .storeError _ => c' = c
  | _ => c' = command.effect c

lemma accounted_of_done (ha : ∀ e, a ≠ .storeError e) (h : c' = command.effect c) :
    command.Accounted k a c c' := by
  unfold Accounted
  split
  · exact absurd rfl (ha _)
  · exact absurd rfl (ha _)
  · exact h

lemma accounted_of_refused (h : ∃ e, a = .storeError e) : command.Accounted k a c c := by
  obtain ⟨e, rfl⟩ := h
  cases e with
  | device e => exact Or.inl rfl
  | _ => rfl

lemma accounted_of_fromDevice {e : StoreError} (he : e.FromDevice)
    (h : c' = c ∨ c' = command.effect c ∨ command.isRemoval = true ∧ k ≠ 0) :
    command.Accounted k (.storeError e) c c' := by
  obtain ⟨e, rfl⟩ := he
  exact h

/-- Unless it is a removal, a command has its effect or none. -/
lemma Accounted.eq_or_eq_effect (h : command.Accounted k a c c')
    (hr : command.isRemoval = false) : c' = c ∨ c' = command.effect c := by
  unfold Accounted at h
  split at h
  · rcases h with h | h | ⟨hr', -⟩
    · exact Or.inl h
    · exact Or.inr h
    · cases hr.symm.trans hr'
  · exact Or.inl h
  · exact Or.inr h

/-- How a command ends after so many programs and erases. -/
structure Ends (command : StoreCommand) (s : Store δ) (k : Nat) (a : Answer) (s' : Store δ) :
    Prop where
  operable : s'.Operable
  valid : s'.view.Valid s.placement
  continues : s.Continues k s'
  blames : ∀ e, a = .storeError e → Blames e s'.device
  accounted : command.Accounted k a (s.placement.persisted s.word) (s.placement.persisted s'.word)

/-- A command that leaves the store alone has no effect to account for, or is refused. -/
lemma ends_unchanged (hs : s.Operable) (hv : s.view.Valid s.placement)
    (hb : ∀ e, a = .storeError e → ¬ e.FromDevice)
    (h : (∀ c, command.effect c = c) ∨ ∃ e, a = .storeError e) : command.Ends s 0 a s := by
  refine ⟨hs, hv, .refl s, fun e he e' he' => absurd ⟨e', he'⟩ (hb e he), ?_⟩
  by_cases ha : ∃ e, a = .storeError e
  · exact accounted_of_refused ha
  · refine accounted_of_done (fun e he => ha ⟨e, he⟩) ?_
    exact (h.resolve_right ha _).symm

/-- A question has no effect. -/
lemma ends_question {x : Except StoreError α} {f : α → Answer} (hs : s.Operable)
    (hv : s.view.Valid s.placement) (hf : ∀ b e, f b ≠ .storeError e)
    (hx : ∀ e, x = .error e → ¬ e.FromDevice) (h : ∀ c, command.effect c = c) :
    command.Ends s 0 (.ofStore f x) s := by
  refine ends_unchanged hs hv ?_ (Or.inl h)
  intro e he
  cases x with
  | ok b => exact absurd he (hf b e)
  | error e' =>
    obtain rfl := Answer.storeError.inj he
    exact hx e' rfl

/-- An operation refused before it touches flash. -/
lemma ends_refused {x : StoreM δ α} {e : StoreError} (hs : s.Operable)
    (hv : s.view.Valid s.placement) (hx : x.run s = .error e s) (he : ¬ e.FromDevice)
    (f : α → Answer) : ∃ k, command.Ends s k (x.answer f s).1 (x.answer f s).2 := by
  rw [answer_of_error hx]
  refine ⟨0, ends_unchanged hs hv ?_ (Or.inr ⟨e, rfl⟩)⟩
  intro e' he'
  exact Answer.storeError.inj he' ▸ he

/-- A command is accounted for by what bounds its operation. -/
lemma ends_of_ensures {x : StoreM δ α} {Q : α → Nat → Store δ → Prop}
    {E : StoreError → Nat → Store δ → Prop}
    (h : Ensures x s (fun a s' => s'.Operable ∧ ∃ k, s.Continues k s' ∧ Q a k s')
      (fun e s' => s'.Operable ∧ ∃ k, s.Continues k s' ∧ Blames e s'.device ∧ E e k s'))
    (f : α → Answer) (hf : ∀ a e, f a ≠ .storeError e)
    (hQ : ∀ a k s', Q a k s' → s'.view.Valid s.placement ∧
      s.placement.persisted s'.word = command.effect (s.placement.persisted s.word))
    (hE : ∀ e k s', E e k s' → s'.view.Valid s.placement ∧
      command.Accounted k (.storeError e) (s.placement.persisted s.word)
        (s.placement.persisted s'.word)) :
    ∃ k, command.Ends s k (x.answer f s).1 (x.answer f s).2 := by
  rcases answer_of_ensures h f with ⟨a, s', ha, hs', k, hk, hq⟩ | ⟨e, s', ha, hs', k, hk, hb, he⟩
  · rw [ha]
    obtain ⟨hv, heff⟩ := hQ a k s' hq
    exact ⟨k, hs', hv, hk, fun e he => absurd he (hf a e), accounted_of_done (hf a) heff⟩
  · rw [ha]
    obtain ⟨hv, hacc⟩ := hE e k s' he
    exact ⟨k, hs', hv, hk, fun e' he' => Answer.storeError.inj he' ▸ hb, hacc⟩

/-- An operation that keeps the contents is accounted for whether it fails or not. -/
lemma ends_of_keeping {x : StoreM δ α} (hs : Acts x s
      (fun _ _ v => v.Serves s.placement (s.placement.persisted s.word))
      (fun e _ v => e.FromDevice ∧ v.Suspended s.placement (s.placement.persisted s.word)))
    (f : α → Answer) (hf : ∀ a e, f a ≠ .storeError e) (h : ∀ c, command.effect c = c) :
    ∃ k, command.Ends s k (x.answer f s).1 (x.answer f s).2 := by
  refine ends_of_ensures hs f hf ?_ ?_
  · intro _ k s' h'
    exact ⟨h'.valid, h'.persisted.trans (h _).symm⟩
  · rintro e k s' ⟨he, h'⟩
    exact ⟨h'.valid, accounted_of_fromDevice he (Or.inl h'.persisted)⟩

lemma ends_format (hs : s.Operable) :
    ∃ k, format.Ends s k (StoreM.answer Store.format (fun _ => .done) s).1
      (StoreM.answer Store.format (fun _ => .done) s).2 := by
  refine ends_of_ensures (acts_format hs) _ (fun _ _ => nofun) ?_ ?_
  · rintro _ k s' ⟨-, hv⟩
    have h := serves_formatted hs.regular s.word
    rw [← hv] at h
    exact ⟨h.valid, h.persisted⟩
  · rintro e k s' ⟨he, hin, -, hcut⟩
    refine ⟨View.Suspended.valid (c := s.placement.persisted s'.word) ⟨hin, rfl⟩, ?_⟩
    refine accounted_of_fromDevice he ?_
    by_cases hk : k = 0
    · have hf := hs.fits
      have hpers := persisted_of_formatting hs.regular hf.pageSize_pos hf.pageSize_dvd hcut
      exact Or.inl (hpers.trans (if_pos hk))
    · exact Or.inr (Or.inr ⟨rfl, hk⟩)

omit [FlashDevice δ] [LawfulFlash δ] in
/-- Out of service a write is refused. -/
lemma exists_checkWrite_error (id : Word) (data : List UInt8) (hin : ¬ s.inService = true) :
    ∃ e, checkWrite id data s = .error e ∧ ¬ e.FromDevice := by
  rw [checkWrite_eq, Bool.eq_false_iff.2 hin]
  split
  · exact ⟨.reservedId, rfl, nofun⟩
  · split
    · exact ⟨.tooShort, rfl, nofun⟩
    · exact ⟨.outOfService, rfl, nofun⟩

lemma ends_write (hs : s.Operable) (hv : s.view.Valid s.placement) (id : Word)
    (data : List UInt8) :
    ∃ k, (write id data).Ends s k (StoreM.answer (Store.write id data) (fun _ => .done) s).1
      (StoreM.answer (Store.write id data) (fun _ => .done) s).2 := by
  by_cases hin : s.inService = true
  · refine ends_of_ensures (ensures_write id data hs (hv.serves hin)) _ (fun _ _ => nofun) ?_ ?_
    · rintro _ k s' ⟨-, h' | ⟨h', -⟩⟩
      · exact ⟨h'.valid, h'.persisted⟩
      · exact ⟨h'.valid, h'.persisted⟩
    · rintro e k s' (⟨-, h'⟩ | ⟨he, h' | h'⟩)
      · exact ⟨h'.valid, h'.persisted ▸ accounted_of_refused ⟨e, rfl⟩⟩
      · exact ⟨h'.valid, accounted_of_fromDevice he (Or.inl h'.persisted)⟩
      · exact ⟨h'.valid, accounted_of_fromDevice he (Or.inr (Or.inl h'.persisted))⟩
  · obtain ⟨e, he, hb⟩ := exists_checkWrite_error id data hin
    exact ends_refused hs hv (run_write_of_checkWrite he) hb _

lemma ends_erase (hs : s.Operable) (hv : s.view.Valid s.placement) (id : Word) :
    ∃ k, (erase id).Ends s k (StoreM.answer (Store.erase id) (fun _ => .done) s).1
      (StoreM.answer (Store.erase id) (fun _ => .done) s).2 := by
  cases hfind : find id s with
  | error e => exact ends_refused hs hv (run_erase_of_find hfind) (not_fromDevice_of_find hfind) _
  | ok r =>
    obtain ⟨hin, data, hl⟩ := exists_lookup_of_find hs hv hfind
    refine ends_of_ensures (acts_erase hs (hv.serves hin) hl) _ (fun _ _ => nofun) ?_ ?_
    · rintro _ k s' ⟨-, h'⟩
      exact ⟨h'.valid, h'.persisted⟩
    · rintro e k s' ⟨he, -, h'⟩
      refine ⟨h'.valid, accounted_of_fromDevice he ?_⟩
      rcases Nat.eq_zero_or_pos k with rfl | hk
      · exact Or.inl (h'.persisted.trans (Contents.blank_zero id _))
      · exact Or.inr (Or.inr ⟨rfl, Nat.ne_of_gt hk⟩)

omit [FlashDevice δ] [LawfulFlash δ] in
lemma requireService_of_not (hin : ¬ s.inService = true) :
    s.requireService = .error .outOfService := by
  rw [requireService, if_neg hin]

omit [LawfulFlash δ] in
lemma run_compactIfLow_of_requireService {e : StoreError} (h : s.requireService = .error e) :
    (Store.compactIfLow : StoreM δ Bool).run s = .error e s := by
  simp [Store.compactIfLow, h]

/-- Every command to a valid store is accounted for and leaves a valid store. -/
theorem run_accounted [Addressable δ] (hs : s.Operable) (hv : s.view.Valid s.placement)
    (command : StoreCommand) :
    ∃ k, command.Ends s k (command.run s).1 (command.run s).2 := by
  cases command with
  | recover => exact ends_of_keeping (acts_recover hs) _ (fun _ _ => nofun) fun _ => rfl
  | format => exact ends_format hs
  | compact =>
    by_cases hin : s.inService = true
    · exact ends_of_keeping (acts_compact hs (hv.serves hin)) _ (fun _ _ => nofun) fun _ => rfl
    · exact ends_refused hs hv (run_compact_of_requireService (requireService_of_not hin)) nofun _
  | compactIfLow =>
    by_cases hin : s.inService = true
    · exact ends_of_keeping (acts_compactIfLow hs (hv.serves hin)) _ (fun _ _ => nofun) fun _ => rfl
    · have hrun := run_compactIfLow_of_requireService (requireService_of_not hin)
      exact ends_refused hs hv hrun nofun _
  | write id data => exact ends_write hs hv id data
  | erase id => exact ends_erase hs hv id
  | read id =>
    exact ⟨0, ends_question hs hv (fun _ _ => nofun) (fun _ => not_fromDevice_of_read) fun _ => rfl⟩
  | readInto id buffer =>
    exact ⟨0, ends_question hs hv (fun _ _ => nofun) (fun _ => not_fromDevice_of_readInto)
      fun _ => rfl⟩
  | contains id =>
    exact ⟨0, ends_question hs hv (fun _ _ => nofun) (fun _ => not_fromDevice_of_contains)
      fun _ => rfl⟩
  | reclaimable =>
    exact ⟨0, ends_question hs hv (fun _ _ => nofun) (fun _ => not_fromDevice_of_reclaimable)
      fun _ => rfl⟩
  | list =>
    exact ⟨0, ends_question hs hv (fun _ _ => nofun) (fun _ => not_fromDevice_of_list) fun _ => rfl⟩

end StoreCommand

end FlashStore
