import FlashStore.Proofs.Outcome
import FlashStore.Proofs.SettingCalls

/-!
# Guards

A store lifts write protection before it programs or erases anything and restores it when it is
done, however many of its operations are under way. A `Guard` says what is to be known of a device
while it is protected and while it is not, and every operation of a store keeps it, on any device
and whatever becomes of the programs and erases. What they fail with is kept track of as well.
-/

namespace FlashStore

/-! ### Operations that keep a property -/

section Preserves

variable {ε σ α β : Type} {P : σ → Prop} {E E' : ε → Prop} {x : EStateM ε σ α}

/-- However the operation ends it keeps the property, and a failure is of a kind. -/
def Preserves (P : σ → Prop) (E : ε → Prop) (x : EStateM ε σ α) : Prop :=
  ∀ s, P s → Ensures x s (fun _ s' => P s') (fun e s' => P s' ∧ E e)

namespace Preserves

lemma mono (h : Preserves P E x) (hE : ∀ e, E e → E' e) : Preserves P E' x :=
  fun s hs => (h s hs).mono (fun _ _ h => h) fun e _ h => ⟨h.1, hE e h.2⟩

lemma pure (a : α) : Preserves P E (Pure.pure a) := fun _ hs => Ensures.pure hs

lemma throw {e : ε} (he : E e) : Preserves P E (MonadExcept.throw e : EStateM ε σ α) :=
  fun _ hs => Ensures.throw ⟨hs, he⟩

lemma modify {f : σ → σ} (hf : ∀ s, P s → P (f s)) :
    Preserves P E (modify f : EStateM ε σ PUnit) := fun s hs => Ensures.modify (hf s hs)

lemma bind {f : α → EStateM ε σ β} (hx : Preserves P E x) (hf : ∀ a, Preserves P E (f a)) :
    Preserves P E (x >>= f) := fun s hs => Ensures.bind (hx s hs) fun a s' hs' => hf a s' hs'

lemma get_bind {f : σ → EStateM ε σ α} (hf : ∀ s, Preserves P E (f s)) :
    Preserves P E (get >>= f) := fun s hs => Ensures.get_bind (hf s s hs)

lemma map (hx : Preserves P E x) (f : α → β) : Preserves P E (f <$> x) :=
  hx.bind fun a => .pure (f a)

lemma ite {c : Prop} [Decidable c] {y : EStateM ε σ α} (hx : Preserves P E x)
    (hy : Preserves P E y) : Preserves P E (if c then x else y) := by
  split
  · exact hx
  · exact hy

lemma forM {f : α → EStateM ε σ PUnit} {l : List α} (hf : ∀ a ∈ l, Preserves P E (f a)) :
    Preserves P E (l.forM f) := by
  induction l with
  | nil => exact .pure _
  | cons a l ih =>
    refine (hf a List.mem_cons_self).bind fun _ => ?_
    exact ih fun a' ha' => hf a' (List.mem_cons_of_mem a ha')

lemma tryCatch {h : ε → EStateM ε σ α} (hx : Preserves P E x) (hh : ∀ e, Preserves P E' (h e)) :
    Preserves P E' (MonadExcept.tryCatch x h) :=
  fun s hs => Ensures.tryCatch (hx s hs) fun e s' hs' => hh e s' hs'.1

end Preserves

end Preserves

/-- The error comes from flash: a call is refused, a word does not read back as it should, or the
chain of records is broken. -/
def StoreError.FromFlash : StoreError → Prop
  | device _ | readBack _ | brokenChain _ => True
  | _ => False

lemma Chain.fromFlash_of_requireIntact {chain : Chain} {e : StoreError}
    (h : chain.requireIntact = .error e) : e.FromFlash := by
  obtain ⟨a, rfl⟩ := eq_brokenChain_of_requireIntact h
  trivial

variable {δ α : Type} [FlashDevice δ]

/-- What is known of a device while write protection is in place and while it is lifted. -/
structure Guard (δ : Type) [FlashDevice δ] where
  Shut : δ → Prop
  Open : δ → Prop
  unlock {d : δ} : Shut d → Open (FlashDevice.unlock d)
  lock {d : δ} : Open d → Shut (FlashDevice.lock d)
  programWord {d : δ} (a : Nat) (w : Word) : Open d →
    Ensures (FlashDevice.programWord a w) d (fun _ d' => Open d') (fun _ d' => Open d')
  erasePage {d : δ} (a : Nat) : Open d →
    Ensures (FlashDevice.erasePage a) d (fun _ d' => Open d') (fun _ d' => Open d')

namespace Guard

variable (G : Guard δ)

/-- Nothing is known of the device. -/
def anything : Guard δ where
  Shut _ := True
  Open _ := True
  unlock _ := trivial
  lock _ := trivial
  programWord a w _ := (Ensures.self (FlashDevice.programWord a w) _).mono
    (fun _ _ _ => trivial) fun _ _ _ => trivial
  erasePage a _ := (Ensures.self (FlashDevice.erasePage a) _).mono
    (fun _ _ _ => trivial) fun _ _ _ => trivial

/-! ### Programs -/

lemma programVerified (a : Nat) (w : Word) :
    Preserves G.Open StoreError.FromFlash (programVerified a w) := by
  intro d hd
  have h := G.programWord a w hd
  unfold Ensures
  rw [run_programVerified]
  cases hrun : (FlashDevice.programWord a w).run d with
  | error e d' => exact ⟨h.of_error hrun, trivial⟩
  | ok u d' =>
    have hd' := h.of_ok hrun
    dsimp only
    split_ifs
    · exact hd'
    · exact ⟨hd', trivial⟩

lemma programWords (a : Nat) (ws : List Word) :
    Preserves G.Open StoreError.FromFlash (programWords a ws) := by
  induction ws generalizing a with
  | nil => exact .pure _
  | cons w ws ih => exact (G.programVerified a w).bind fun _ => ih (a + 4)

lemma erasePage_adapted (a : Nat) :
    Preserves G.Open StoreError.FromFlash
      (EStateM.adaptExcept StoreError.device (FlashDevice.erasePage (δ := δ) a)) := by
  intro d hd
  refine Ensures.adaptExcept ((G.erasePage a hd).mono (fun _ _ h => h) fun _ _ h => ?_)
  exact ⟨h, trivial⟩

lemma wipeBlock (block : Block) :
    Preserves G.Open StoreError.FromFlash (wipeBlock block : ProgramM δ Unit) := by
  unfold FlashStore.wipeBlock
  refine (Preserves.forM fun a _ => G.erasePage_adapted a).bind fun _ => .get_bind fun d => ?_
  split
  · exact .throw trivial
  · exact .pure _

lemma commitRecord (r : Record) (words : List Word) :
    Preserves G.Open StoreError.FromFlash (commitRecord r words) :=
  (G.programWords _ _).bind fun _ => (G.programVerified _ _).bind fun _ => G.programVerified _ _

lemma writeRecord (a : Nat) (id : Word) (data : List UInt8) :
    Preserves G.Open StoreError.FromFlash (writeRecord a id data) :=
  (G.commitRecord _ _).bind fun _ => .pure _

lemma copyRecord (r : Record) (a : Nat) :
    Preserves G.Open StoreError.FromFlash (copyRecord r a) :=
  .get_bind fun _ => (G.commitRecord _ _).bind fun _ => .pure _

lemma copyRecords (rs : List Record) (a : Nat) :
    Preserves G.Open StoreError.FromFlash (copyRecords rs a) := by
  induction rs generalizing a with
  | nil => exact .pure _
  | cons r rs ih => exact (G.copyRecord r a).bind fun _ => ih _

lemma removeRecord (r : Record) :
    Preserves G.Open StoreError.FromFlash (removeRecord r) :=
  (G.programWords _ _).bind fun _ => G.programVerified _ _

/-! ### Operations -/

/-- So many operations need write protection lifted, and the guard is kept. -/
def At (k : Nat) (s : Store δ) : Prop :=
  s.unlockDepth = k ∧ if k = 0 then G.Shut s.device else G.Open s.device

variable {k : Nat} {E : StoreError → Prop} {x : StoreM δ α}

/-- What only shows in fields other than the device and its protection. -/
lemma at_congr {s s' : Store δ} (hd : s'.device = s.device)
    (hk : s'.unlockDepth = s.unlockDepth) (h : G.At k s) : G.At k s' := by
  rw [At, hd, hk]
  exact h

lemma update {f : Store δ → Store δ} (hd : ∀ s, (f s).device = s.device)
    (hk : ∀ s, (f s).unlockDepth = s.unlockDepth) :
    Preserves (G.At k) E (modify f : StoreM δ PUnit) :=
  .modify fun s hs => G.at_congr (hd s) (hk s) hs

lemma query {f : Store δ → Except StoreError α} (hf : ∀ s e, f s = .error e → E e) :
    Preserves (G.At k) E (Store.query f) := by
  intro s hs
  exact Ensures.query (fun _ _ => hs) fun e h => ⟨hs, hf s e h⟩

/-- Programs and erases run under lifted protection only. -/
lemma onDevice {y : ProgramM δ α} (hy : Preserves G.Open E y) :
    Preserves (G.At (k + 1)) E (Store.onDevice y) := by
  rintro s ⟨hk, hopen⟩
  refine Ensures.onDevice ((hy s.device hopen).mono ?_ ?_)
  · exact fun a d hd => ⟨hk, hd⟩
  · exact fun e d h => ⟨⟨hk, h.1⟩, h.2⟩

lemma suspendOnFailure (hx : Preserves (G.At k) E x) :
    Preserves (G.At k) E (Store.suspendOnFailure x) := by
  intro s hs
  refine Ensures.suspendOnFailure ((hx s hs).mono (fun _ _ h => h) fun e s' h => ?_)
  exact ⟨G.at_congr rfl rfl h.1, h.2⟩

lemma at_beginUnlocked {s : Store δ} (h : G.At k s) : G.At (k + 1) s.beginUnlocked := by
  obtain ⟨rfl, hd⟩ := h
  refine ⟨rfl, ?_⟩
  show G.Open (if s.unlockDepth = 0 then FlashDevice.unlock s.device else s.device)
  split_ifs at hd ⊢
  · exact G.unlock hd
  · exact hd

/-- Only the outermost operation restores protection. -/
lemma at_endUnlocked {s : Store δ} (h : G.At (k + 1) s) : G.At k s.endUnlocked := by
  obtain ⟨hk, hopen⟩ := h
  refine ⟨by rw [Store.unlockDepth_endUnlocked, hk, Nat.add_sub_cancel], ?_⟩
  show if k = 0 then G.Shut (if s.unlockDepth = 1 then FlashDevice.lock s.device else s.device)
    else G.Open (if s.unlockDepth = 1 then FlashDevice.lock s.device else s.device)
  rw [hk]
  split_ifs with hzero hone hone
  · exact G.lock hopen
  · omega
  · omega
  · exact hopen

lemma withUnlocked (hx : Preserves (G.At (k + 1)) E x) :
    Preserves (G.At k) E (Store.withUnlocked x) := by
  intro s hs
  refine Ensures.withUnlocked ((hx _ (G.at_beginUnlocked hs)).mono ?_ ?_)
  · exact fun a s' h => G.at_endUnlocked h
  · exact fun e s' h => ⟨G.at_endUnlocked h.1, h.2⟩

lemma moveToSpare :
    Preserves (G.At (k + 1)) StoreError.FromFlash (Store.moveToSpare : StoreM δ Unit) := by
  unfold Store.moveToSpare
  refine .get_bind fun s => .get_bind fun t => (G.onDevice (G.wipeBlock _)).bind fun _ => ?_
  refine .get_bind fun u => .get_bind fun v => (G.onDevice ?_).bind fun cursor => ?_
  · exact (G.copyRecords _ _).bind fun cursor => (G.programVerified _ _).bind fun _ =>
      (G.programVerified _ _).bind fun _ => .pure cursor
  · exact Preserves.bind (G.update (fun _ => rfl) fun _ => rfl) fun _ => G.onDevice (G.wipeBlock _)

/-- A compaction fails for the sake of flash only. -/
lemma compactNow :
    Preserves (G.At k) StoreError.FromFlash (Store.compactNow : StoreM δ Unit) :=
  G.withUnlocked G.moveToSpare

lemma format : Preserves (G.At k) StoreError.FromFlash (Store.format : StoreM δ Unit) := by
  unfold Store.format
  refine Preserves.bind (G.update (fun _ => rfl) fun _ => rfl) fun _ => ?_
  refine .get_bind fun s => .get_bind fun t => ?_
  refine (G.withUnlocked (G.onDevice ?_)).bind fun _ => G.update (fun _ => rfl) fun _ => rfl
  exact (G.wipeBlock _).bind fun _ => (G.wipeBlock _).bind fun _ =>
    (G.programVerified _ _).bind fun _ => G.programVerified _ _

lemma removeSuperseded :
    Preserves (G.At k) StoreError.FromFlash (Store.removeSuperseded : StoreM δ Unit) :=
  .get_bind fun _ => (G.query fun _ _ => Chain.fromFlash_of_requireIntact).bind fun _ =>
    .forM fun r _ => G.withUnlocked (G.onDevice (G.removeRecord r))

lemma recover : Preserves (G.At k) StoreError.FromFlash (Store.recover : StoreM δ Unit) := by
  unfold Store.recover
  refine Preserves.bind (G.update (fun _ => rfl) fun _ => rfl) fun _ => .get_bind fun s => ?_
  split
  · exact G.format
  · refine Preserves.bind (G.update (fun _ => rfl) fun _ => rfl) fun _ => .get_bind fun s => ?_
    refine .ite (G.compactNow.bind fun _ => ?rest) ?rest
    exact G.removeSuperseded.bind fun _ => G.update (fun _ => rfl) fun _ => rfl

lemma placeRecord (id : Word) (data : List UInt8) :
    Preserves (G.At (k + 1)) StoreError.FromFlash (Store.placeRecord id data : StoreM δ Unit) := by
  unfold Store.placeRecord
  refine (G.query fun s e h => ?_).bind fun previous => .get_bind fun s => ?_
  · exact Chain.fromFlash_of_requireIntact (Chain.requireIntact_of_find h)
  refine (G.onDevice (G.writeRecord _ _ _)).bind fun cursor => ?_
  refine Preserves.bind (G.update (fun _ => rfl) fun _ => rfl) fun _ => ?_
  cases previous with
  | none => exact .pure _
  | some r => exact G.onDevice (G.removeRecord r)

/-- The part of a write that changes flash fails for the sake of flash, or for want of room. -/
lemma append (id : Word) (data : List UInt8) :
    Preserves (G.At (k + 1)) (fun e => e.FromFlash ∨ e = .full)
      (Store.append id data : StoreM δ Unit) := by
  have hflash (e : StoreError) (he : e.FromFlash) : e.FromFlash ∨ e = .full := Or.inl he
  have hplace := (G.placeRecord (k := k) id data).mono hflash
  rw [Store.append_eq]
  refine .get_bind fun s => .ite ?_ hplace
  refine (G.compactNow.mono hflash).bind fun _ => .get_bind fun t => .ite ?_ hplace
  exact Preserves.bind (.throw (Or.inr rfl)) fun _ => hplace

/-- The part of an erase that changes flash fails for the sake of flash only. -/
lemma removeAll (id : Word) :
    Preserves (G.At k) StoreError.FromFlash (Store.suspendOnFailure <| Store.withUnlocked do
      let chain := (← get).chain
      (chain.records.filter (·.id == id)).forM fun r => Store.onDevice (FlashStore.removeRecord r)
      Store.query fun _ => chain.requireIntact : StoreM δ Unit) := by
  refine G.suspendOnFailure (G.withUnlocked (.get_bind fun s => ?_))
  refine (Preserves.forM fun r _ => G.onDevice (G.removeRecord r)).bind fun _ => ?_
  exact G.query fun _ _ => Chain.fromFlash_of_requireIntact

/-! Other operations ask a question first, which may be answered by any error. -/

lemma ask (f : Store δ → Except StoreError α) :
    Preserves (G.At k) (fun _ => True) (Store.query f) :=
  G.query fun _ _ _ => trivial

lemma compact : Preserves (G.At k) (fun _ => True) (Store.compact : StoreM δ Unit) :=
  (G.ask _).bind fun _ => (G.suspendOnFailure G.compactNow).mono fun _ _ => trivial

lemma compactIfLow : Preserves (G.At k) (fun _ => True) (Store.compactIfLow : StoreM δ Bool) := by
  unfold Store.compactIfLow
  refine (G.ask _).bind fun _ => .get_bind fun s => .get_bind fun t => .ite (.pure _) ?_
  refine (G.suspendOnFailure (G.ask _)).bind fun n => .ite (.pure _) ?_
  refine Preserves.bind ?_ fun _ => .pure _
  exact (G.suspendOnFailure G.compactNow).mono fun _ _ => trivial

lemma write (id : Word) (data : List UInt8) :
    Preserves (G.At k) (fun _ => True) (Store.write id data : StoreM δ Unit) := by
  refine (G.ask _).bind fun _ => Preserves.bind ?_ fun _ => ?_
  · exact (G.suspendOnFailure (G.withUnlocked (G.append id data))).mono fun _ _ => trivial
  · exact (G.compactIfLow.map _).tryCatch fun _ => .pure _

lemma erase (id : Word) :
    Preserves (G.At k) (fun _ => True) (Store.erase id : StoreM δ Unit) :=
  (G.ask _).bind fun _ => (G.removeAll id).mono fun _ _ => trivial

lemma at_of_attach {d : δ} {p : Placement} {s : Store δ} (hd : G.Shut d)
    (h : Store.attach d p = .ok s) : G.At 0 s := by
  obtain ⟨-, rfl⟩ := Store.attach_eq_ok h
  exact ⟨rfl, hd⟩

lemma answer (hx : Preserves (G.At k) E x) (f : α → Answer) {s : Store δ} (hs : G.At k s) :
    G.At k (x.answer f s).2 := by
  rcases answer_of_ensures (hx s hs) f with ⟨a, s', ha, hs'⟩ | ⟨e, s', ha, hs'⟩
  · rw [ha]
    exact hs'
  · rw [ha]
    exact hs'.1

variable [Addressable δ]

/-- Every call of a store keeps the guard. -/
theorem run (command : StoreCommand) {s : Store δ} (hs : G.At k s) : G.At k (command.run s).2 := by
  cases command with
  | recover => exact G.answer G.recover _ hs
  | format => exact G.answer G.format _ hs
  | compact => exact G.answer G.compact _ hs
  | compactIfLow => exact G.answer G.compactIfLow _ hs
  | write id data => exact G.answer (G.write id data) _ hs
  | erase id => exact G.answer (G.erase id) _ hs
  | read | readInto | contains | reclaimable | list => exact hs

/-! ### Sessions -/

variable [PowerControlled δ]

/-- The guard of a device between calls: no operation needs write protection lifted. -/
def Keeps (x : Session δ) : Prop :=
  match x.mount with
  | .device d => G.Shut d
  | .store s => G.At 0 s

variable {G} {x : Session δ}

omit [Addressable δ] [PowerControlled δ] in
lemma shut_of_keeps (h : G.Keeps x) : G.Shut x.device := by
  obtain ⟨p, d | s⟩ := x
  · exact h
  · exact h.2

omit [Addressable δ] [PowerControlled δ] in
lemma at_of_keeps (h : G.Keeps x) {s : Store δ} (hs : x.store? = some s) : G.At 0 s := by
  obtain ⟨p, d | s'⟩ := x
  · cases hs
  · obtain rfl := Option.some.inj hs
    exact h

omit [Addressable δ] [PowerControlled δ] in
lemma Keeps.setDevice (h : G.Keeps x) {d : δ} (hd : G.Shut d) : G.Keeps (x.setDevice d) := by
  obtain ⟨p, d' | s⟩ := x
  · exact hd
  · exact ⟨h.1, hd⟩

/-- A call that is made where no store is open does nothing. -/
lemma Keeps.call (h : G.Keeps x) (command : StoreCommand) :
    G.Keeps (x.step (.store command)).2 := by
  obtain ⟨p, d | s⟩ := x
  · exact h
  · exact G.run command h

/-- A store that is opened on a protected device has no operation under way. -/
lemma Keeps.opening {how : Opening} (h : G.Shut (Session.opened how x.device)) :
    G.Keeps (x.step (.opening how none)).2 := by
  rw [Session.step_opening]
  cases ha : Store.attach (Session.opened how x.device) x.placement with
  | error e => exact h
  | ok s =>
    have hs : G.Keeps (⟨x.placement, .store s⟩ : Session δ) := G.at_of_attach h ha
    dsimp only
    split
    · exact hs
    · exact hs.call .recover

/-- A guard that does not see power is kept by every command of a session. -/
theorem Keeps.step (hcut : ∀ n d, G.Shut d → G.Shut (PowerControlled.cutPowerAfter n d))
    (hrestore : ∀ d, G.Shut d → G.Shut (PowerControlled.restorePower d)) (h : G.Keeps x)
    (command : Command) : G.Keeps (x.step command).2 := by
  have hshut := shut_of_keeps h
  cases command with
  | store command => exact h.call command
  | setting command =>
    obtain ⟨calls, -, hcalls⟩ := Session.step_setting command x
    rw [hcalls]
    clear hcalls
    induction calls generalizing x with
    | nil => exact h
    | cons call calls ih => exact ih (h.call call) (shut_of_keeps (h.call call))
  | cutPowerAfter n => exact h.setDevice (hcut n _ hshut)
  | restorePower => exact h.setDevice (hrestore _ hshut)
  | opening how placement =>
    have hopened : G.Shut (Session.opened how x.device) := by
      unfold Session.opened
      split
      · exact hrestore _ hshut
      · exact hshut
    exact Keeps.opening (x := ⟨placement.getD x.placement, x.mount⟩) hopened

/-- So it holds between the calls of every run. -/
theorem Keeps.run (hcut : ∀ n d, G.Shut d → G.Shut (PowerControlled.cutPowerAfter n d))
    (hrestore : ∀ d, G.Shut d → G.Shut (PowerControlled.restorePower d)) (h : G.Keeps x)
    (commands : List Command) : G.Keeps (Session.run commands x) := by
  induction commands generalizing x with
  | nil => exact h
  | cons command commands ih => exact ih (h.step hcut hrestore command)

end Guard

end FlashStore
