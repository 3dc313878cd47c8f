import FlashStore.Flash.Traced
import FlashStore.Proofs.Sessions

/-!
# Tracing changes nothing

`Mirrors f x y` says that `y` does to the image of a state what `x` does to the state. A map of
devices that reads, programs and erases go through is `Transparent`, and every operation of a store
over one device mirrors itself over the other. So a session on a traced device is, with the trace
left out, the session on the device.
-/

namespace FlashStore

open Store

/-! ### Mirrored operations -/

section Mirrors

variable {ε σ τ α β : Type} {f : σ → τ}

/-- The second operation ends on the image of a state as the first one on the state. -/
def Mirrors (f : σ → τ) (x : EStateM ε σ α) (y : EStateM ε τ α) : Prop :=
  ∀ s, Ensures x s (fun a s' => y.run (f s) = .ok a (f s'))
    (fun e s' => y.run (f s) = .error e (f s'))

namespace Mirrors

variable {x : EStateM ε σ α} {y : EStateM ε τ α}

lemma pure (a : α) : Mirrors f (Pure.pure a : EStateM ε σ α) (Pure.pure a) := fun _ => rfl

lemma throw (e : ε) :
    Mirrors f (MonadExcept.throw e : EStateM ε σ α) (MonadExcept.throw e) := fun _ => rfl

lemma modify {g : σ → σ} {h : τ → τ} (hg : ∀ s, h (f s) = f (g s)) :
    Mirrors f (modify g : EStateM ε σ PUnit) (modify h) := by
  intro s
  show (EStateM.Result.ok PUnit.unit (h (f s)) : EStateM.Result ε τ PUnit) = _
  rw [hg]

lemma bind {g : α → EStateM ε σ β} {h : α → EStateM ε τ β} (hx : Mirrors f x y)
    (hg : ∀ a, Mirrors f (g a) (h a)) : Mirrors f (x >>= g) (y >>= h) := by
  intro s
  cases hrun : x.run s with
  | ok a s' =>
    have hy : (y >>= h).run (f s) = (h a).run (f s') := by
      rw [EStateM.run_bind, (hx s).of_ok hrun]
    have hxg : (x >>= g).run s = (g a).run s' := by rw [EStateM.run_bind, hrun]
    unfold Ensures
    rw [hxg, hy]
    exact hg a s'
  | error e s' =>
    have hy : (y >>= h).run (f s) = .error e (f s') := by
      rw [EStateM.run_bind, (hx s).of_error hrun]
    exact .intro_error (by rw [EStateM.run_bind, hrun]) hy

lemma get_bind {g : σ → EStateM ε σ β} {h : τ → EStateM ε τ β}
    (hg : ∀ s, Mirrors f (g s) (h (f s))) : Mirrors f (get >>= g) (get >>= h) := fun s => hg s s

lemma map (hx : Mirrors f x y) (g : α → β) : Mirrors f (g <$> x) (g <$> y) :=
  hx.bind fun a => .pure (g a)

lemma throw_bind (e : ε) (g : α → EStateM ε σ β) (h : α → EStateM ε τ β) :
    Mirrors f (MonadExcept.throw e >>= g) (MonadExcept.throw e >>= h) := fun _ => rfl

lemma ite {c : Prop} [Decidable c] {x' : EStateM ε σ α} {y' : EStateM ε τ α}
    (hx : Mirrors f x y) (hx' : Mirrors f x' y') :
    Mirrors f (if c then x else x') (if c then y else y') := by
  split
  · exact hx
  · exact hx'

lemma tryCatch {g : ε → EStateM ε σ α} {h : ε → EStateM ε τ α} (hx : Mirrors f x y)
    (hg : ∀ e, Mirrors f (g e) (h e)) :
    Mirrors f (MonadExcept.tryCatch x g) (MonadExcept.tryCatch y h) := by
  intro s
  cases hrun : x.run s with
  | ok a s' =>
    have hx' : (EStateM.tryCatch x g).run s = .ok a s' := by
      simp only [EStateM.run, EStateM.tryCatch, show x s = _ from hrun]
    have hy : (EStateM.tryCatch y h).run (f s) = .ok a (f s') := by
      simp only [EStateM.run, EStateM.tryCatch, show y (f s) = _ from (hx s).of_ok hrun]
    exact .intro_ok hx' hy
  | error e s' =>
    have hx' : (EStateM.tryCatch x g).run s = (g e).run s' := by
      simp only [EStateM.run, EStateM.tryCatch, show x s = _ from hrun]
      rfl
    have hy : (EStateM.tryCatch y h).run (f s) = (h e).run (f s') := by
      simp only [EStateM.run, EStateM.tryCatch, show y (f s) = _ from (hx s).of_error hrun]
      rfl
    show Ensures (EStateM.tryCatch x g) s
      (fun a s' => (EStateM.tryCatch y h).run (f s) = .ok a (f s'))
      (fun e s' => (EStateM.tryCatch y h).run (f s) = .error e (f s'))
    unfold Ensures
    rw [hx', hy]
    exact hg e s'

lemma forM {g : α → EStateM ε σ PUnit} {h : α → EStateM ε τ PUnit}
    (hg : ∀ a, Mirrors f (g a) (h a)) (l : List α) : Mirrors f (l.forM g) (l.forM h) := by
  induction l with
  | nil => exact .pure _
  | cons a l ih => exact (hg a).bind fun _ => ih

/-- The outcomes of mirrored operations are images of each other. -/
lemma run_eq (h : Mirrors f x y) (s : σ) :
    y.run (f s) = match x.run s with
      | .ok a s' => .ok a (f s')
      | .error e s' => .error e (f s') := by
  have hs := h s
  unfold Ensures at hs
  cases hrun : x.run s with
  | ok a s' => simpa only [hrun] using hs
  | error e s' => simpa only [hrun] using hs

lemma adaptExcept {ε' : Type} (g : ε → ε') (hx : Mirrors f x y) :
    Mirrors f (EStateM.adaptExcept g x) (EStateM.adaptExcept g y) := by
  intro s
  unfold Ensures
  rw [EStateM.run_adaptExcept, EStateM.run_adaptExcept, hx.run_eq]
  cases x.run s with
  | ok a s' => rfl
  | error e s' => rfl

end Mirrors

end Mirrors

/-! ### Devices -/

variable {δ δ' α : Type} [FlashDevice δ] [FlashDevice δ'] {f : δ → δ'}

/-- A map of devices that everything a store does goes through. -/
structure Transparent (f : δ → δ') : Prop where
  pageSize_eq : FlashDevice.pageSize δ' = FlashDevice.pageSize δ
  capacity_eq (d : δ) : FlashDevice.capacity (f d) = FlashDevice.capacity d
  readWord_eq (d : δ) : FlashDevice.readWord (f d) = FlashDevice.readWord d
  programWord (a : Nat) (w : Word) :
    Mirrors f (FlashDevice.programWord a w) (FlashDevice.programWord a w)
  erasePage (a : Nat) : Mirrors f (FlashDevice.erasePage a) (FlashDevice.erasePage a)
  unlock_eq (d : δ) : FlashDevice.unlock (f d) = f (FlashDevice.unlock d)
  lock_eq (d : δ) : FlashDevice.lock (f d) = f (FlashDevice.lock d)

omit [FlashDevice δ] in
/-- A call that is traced is passed on. -/
lemma Traced.mirrors_call (c : FlashCall) (x : DeviceM δ Unit) :
    Mirrors Traced.device (call c x) x := by
  intro d
  unfold Ensures
  rw [run_call]
  cases x.run d.device with
  | ok u inner => rfl
  | error e inner => rfl

/-- Leaving out the trace changes nothing. -/
lemma Traced.transparent_device : Transparent (Traced.device : Traced δ → δ) where
  pageSize_eq := rfl
  capacity_eq _ := rfl
  readWord_eq _ := rfl
  programWord a w := mirrors_call (.program a w) _
  erasePage a := mirrors_call (.erase a) _
  unlock_eq _ := rfl
  lock_eq _ := rfl

/-! ### Programs -/

/-- A map of devices that reads and programs go through, whatever becomes of erases. -/
structure Relays (f : δ → δ') : Prop where
  readWord_eq (d : δ) : FlashDevice.readWord (f d) = FlashDevice.readWord d
  programWord (a : Nat) (w : Word) :
    Mirrors f (FlashDevice.programWord a w) (FlashDevice.programWord a w)

namespace Relays

variable (hf : Relays f)
include hf

lemma programVerified (a : Nat) (w : Word) :
    Mirrors f (programVerified a w) (programVerified a w) := by
  refine ((hf.programWord a w).adaptExcept _).bind fun _ => ?_
  refine .get_bind fun d => ?_
  rw [hf.readWord_eq]
  split
  · exact .throw _
  · exact .pure _

lemma programWords (a : Nat) (ws : List Word) :
    Mirrors f (programWords a ws) (programWords a ws) := by
  induction ws generalizing a with
  | nil => exact .pure _
  | cons w ws ih => exact (hf.programVerified a w).bind fun _ => ih (a + 4)

lemma commitRecord (r : Record) (words : List Word) :
    Mirrors f (commitRecord r words) (commitRecord r words) :=
  (hf.programWords _ _).bind fun _ => (hf.programVerified _ _).bind fun _ => hf.programVerified _ _

lemma writeRecord (a : Nat) (id : Word) (data : List UInt8) :
    Mirrors f (writeRecord a id data) (writeRecord a id data) :=
  (hf.commitRecord _ _).bind fun _ => .pure _

lemma copyRecord (r : Record) (a : Nat) : Mirrors f (copyRecord r a) (copyRecord r a) := by
  refine .get_bind fun d => ?_
  rw [hf.readWord_eq]
  exact (hf.commitRecord _ _).bind fun _ => .pure _

lemma copyRecords (rs : List Record) (a : Nat) :
    Mirrors f (copyRecords rs a) (copyRecords rs a) := by
  induction rs generalizing a with
  | nil => exact .pure _
  | cons r rs ih => exact (hf.copyRecord r a).bind fun _ => ih _

lemma removeRecord (r : Record) : Mirrors f (removeRecord r) (removeRecord r) :=
  (hf.programWords _ _).bind fun _ => hf.programVerified _ _

end Relays

namespace Transparent

variable (hf : Transparent f)
include hf

lemma relays : Relays f := ⟨hf.readWord_eq, hf.programWord⟩

lemma wipeBlock (block : Block) : Mirrors f (wipeBlock block) (wipeBlock block) := by
  unfold FlashStore.wipeBlock
  rw [hf.pageSize_eq]
  refine (Mirrors.forM (fun a => (hf.erasePage a).adaptExcept _) _).bind fun _ => ?_
  refine .get_bind fun d => ?_
  rw [hf.readWord_eq]
  split
  · exact .throw _
  · exact .pure _

end Transparent

/-! ### Stores -/

/-- The store over the image of its device. -/
def Store.map (f : δ → δ') (s : Store δ) : Store δ' :=
  ⟨f s.device, s.placement, s.current, s.generation, s.cursor, s.inService, s.unlockDepth⟩

namespace Store

variable {x : ProgramM δ α} {y : ProgramM δ' α} {z : StoreM δ α} {z' : StoreM δ' α}

omit [FlashDevice δ] [FlashDevice δ'] in
lemma mirrors_query {q : Store δ → Except StoreError α} {q' : Store δ' → Except StoreError α}
    (h : ∀ s, q' (s.map f) = q s) : Mirrors (Store.map f) (query q) (query q') := by
  intro s
  unfold Ensures
  rw [run_query, run_query, h]
  cases q s with
  | ok a => rfl
  | error e => rfl

omit [FlashDevice δ] [FlashDevice δ'] in
lemma mirrors_onDevice (h : Mirrors f x y) :
    Mirrors (Store.map f) (onDevice x) (onDevice y) := by
  intro s
  unfold Ensures
  rw [run_onDevice, run_onDevice, show (s.map f).device = f s.device from rfl, h.run_eq]
  cases x.run s.device with
  | ok a d => rfl
  | error e d => rfl

omit [FlashDevice δ] [FlashDevice δ'] in
lemma mirrors_suspendOnFailure (h : Mirrors (Store.map f) z z') :
    Mirrors (Store.map f) (suspendOnFailure z) (suspendOnFailure z') := by
  intro s
  unfold Ensures
  rw [run_suspendOnFailure, run_suspendOnFailure, h.run_eq]
  cases z.run s with
  | ok a s' => rfl
  | error e s' => rfl

end Store

namespace Transparent

variable (hf : Transparent f) {z : StoreM δ α} {z' : StoreM δ' α}
include hf

lemma beginUnlocked_map (s : Store δ) : (s.map f).beginUnlocked = s.beginUnlocked.map f := by
  unfold Store.beginUnlocked Store.map
  dsimp only
  split
  · rw [hf.unlock_eq]
  · rfl

lemma endUnlocked_map (s : Store δ) : (s.map f).endUnlocked = s.endUnlocked.map f := by
  unfold Store.endUnlocked Store.map
  dsimp only
  split
  · rw [hf.lock_eq]
  · rfl

lemma withUnlocked (h : Mirrors (Store.map f) z z') :
    Mirrors (Store.map f) (withUnlocked z) (withUnlocked z') := by
  intro s
  unfold Ensures
  rw [run_withUnlocked, run_withUnlocked, hf.beginUnlocked_map, h.run_eq]
  cases z.run s.beginUnlocked with
  | ok a s' => exact congrArg (EStateM.Result.ok a) (hf.endUnlocked_map s')
  | error e s' => exact congrArg (EStateM.Result.error e) (hf.endUnlocked_map s')

lemma word_map (s : Store δ) : (s.map f).word = s.word := hf.readWord_eq s.device

lemma chain_map (s : Store δ) : (s.map f).chain = s.chain := by
  rw [Store.chain, Store.chain, hf.word_map]
  rfl

lemma format : Mirrors (Store.map f) Store.format Store.format := by
  unfold Store.format
  refine Mirrors.bind (.modify fun _ => rfl) fun _ => ?_
  refine .get_bind fun s => .get_bind fun _ => ?_
  refine Mirrors.bind (hf.withUnlocked (mirrors_onDevice ?_)) fun _ => .modify fun _ => rfl
  exact (hf.wipeBlock _).bind fun _ => (hf.wipeBlock _).bind fun _ =>
    (hf.relays.programVerified _ _).bind fun _ => hf.relays.programVerified _ _

lemma moveToSpare : Mirrors (Store.map f) Store.moveToSpare Store.moveToSpare := by
  unfold Store.moveToSpare
  refine .get_bind fun s => .get_bind fun _ => ?_
  refine Mirrors.bind (mirrors_onDevice (hf.wipeBlock _)) fun _ => ?_
  refine .get_bind fun s => .get_bind fun t => ?_
  rw [hf.chain_map]
  refine Mirrors.bind (mirrors_onDevice ?_) fun cursor => ?_
  · exact (hf.relays.copyRecords _ _).bind fun cursor =>
      (hf.relays.programVerified _ _).bind fun _ =>
        (hf.relays.programVerified _ _).bind fun _ => .pure cursor
  · exact Mirrors.bind (.modify fun _ => rfl) fun _ => mirrors_onDevice (hf.wipeBlock _)

lemma compactNow : Mirrors (Store.map f) Store.compactNow Store.compactNow :=
  hf.withUnlocked hf.moveToSpare

lemma compact : Mirrors (Store.map f) Store.compact Store.compact :=
  Mirrors.bind (mirrors_query fun _ => rfl) fun _ => mirrors_suspendOnFailure hf.compactNow

lemma reclaimable_map (s : Store δ) : (s.map f).reclaimable = s.reclaimable := by
  rw [Store.reclaimable, Store.reclaimable, hf.chain_map]
  rfl

lemma compactIfLow : Mirrors (Store.map f) Store.compactIfLow Store.compactIfLow := by
  unfold Store.compactIfLow
  refine Mirrors.bind (mirrors_query fun _ => rfl) fun _ => .get_bind fun s => .get_bind fun t => ?_
  refine .ite (.pure _) ?_
  refine Mirrors.bind (mirrors_suspendOnFailure (mirrors_query hf.reclaimable_map)) fun n => ?_
  refine .ite (.pure _) ?_
  exact (mirrors_suspendOnFailure hf.compactNow).bind fun _ => .pure _

lemma newest?_map (s : Store δ) : (s.map f).newest? = s.newest? := by
  unfold Store.newest? Store.header?
  rw [hf.word_map]
  rfl

lemma resume_map (side : Side) (generation : Word) (s : Store δ) :
    resume side generation (s.map f) = (resume side generation s).map f := by
  unfold Store.resume
  have hchain := hf.chain_map { s with current := side, generation }
  exact congrArg (fun chain : Chain =>
    ({ s.map f with
      current := side
      generation
      cursor := chain.freeAddress (s.placement.block side) } : Store δ')) hchain

lemma needsRepair_map (s : Store δ) : (s.map f).needsRepair = s.needsRepair := by
  unfold Store.needsRepair
  rw [hf.chain_map, hf.word_map]
  rfl

lemma removeSuperseded :
    Mirrors (Store.map f) Store.removeSuperseded Store.removeSuperseded := by
  unfold Store.removeSuperseded
  refine .get_bind fun s => ?_
  rw [hf.chain_map]
  refine Mirrors.bind (mirrors_query fun _ => rfl) fun _ => ?_
  exact .forM (fun r => hf.withUnlocked (mirrors_onDevice (hf.relays.removeRecord r))) _

lemma recover : Mirrors (Store.map f) Store.recover Store.recover := by
  unfold Store.recover
  refine Mirrors.bind (.modify fun _ => rfl) fun _ => .get_bind fun s => ?_
  rw [hf.newest?_map]
  split
  · exact hf.format
  · rename_i side generation _
    refine Mirrors.bind (.modify (hf.resume_map side generation)) fun _ => .get_bind fun s => ?_
    rw [hf.needsRepair_map]
    refine .ite (hf.compactNow.bind fun _ => ?hrest) ?hrest
    exact hf.removeSuperseded.bind fun _ => .modify fun _ => rfl

lemma append (id : Word) (data : List UInt8) :
    Mirrors (Store.map f) (Store.append id data) (Store.append id data) := by
  unfold Store.append
  refine .get_bind fun s => ?_
  refine .ite (hf.compactNow.bind fun _ => .get_bind fun t =>
    .ite (.throw_bind _ _ _) ?hstore) ?hstore
  refine Mirrors.bind (mirrors_query fun u => ?_) fun previous => ?_
  · rw [hf.chain_map]
  refine .get_bind fun u => ?_
  refine Mirrors.bind (mirrors_onDevice (hf.relays.writeRecord _ _ _)) fun cursor => ?_
  refine Mirrors.bind (.modify fun _ => rfl) fun _ => ?_
  cases previous with
  | none => exact .pure _
  | some r => exact mirrors_onDevice (hf.relays.removeRecord r)

lemma write (id : Word) (data : List UInt8) :
    Mirrors (Store.map f) (Store.write id data) (Store.write id data) := by
  unfold Store.write
  refine Mirrors.bind (mirrors_query fun _ => rfl) fun _ => ?_
  refine Mirrors.bind (mirrors_suspendOnFailure (hf.withUnlocked (hf.append id data))) fun _ => ?_
  exact .tryCatch (hf.compactIfLow.map _) fun _ => .pure _

lemma find_map (id : Word) (s : Store δ) : (s.map f).find id = s.find id := by
  rw [Store.find, Store.find, hf.chain_map]
  rfl

lemma erase (id : Word) : Mirrors (Store.map f) (Store.erase id) (Store.erase id) := by
  unfold Store.erase
  refine Mirrors.bind (mirrors_query (hf.find_map id)) fun _ => ?_
  refine mirrors_suspendOnFailure (hf.withUnlocked (.get_bind fun s => ?_))
  rw [hf.chain_map]
  refine Mirrors.bind (.forM (fun r => mirrors_onDevice (hf.relays.removeRecord r)) _) fun _ => ?_
  exact mirrors_query fun _ => rfl

omit hf [FlashDevice δ] [FlashDevice δ'] in
/-- A mirrored operation is answered the same. -/
lemma answer_map {x : StoreM δ α} {y : StoreM δ' α} (h : Mirrors (Store.map f) x y) (g : α → Answer)
    (s : Store δ) : y.answer g (s.map f) = ((x.answer g s).1, (x.answer g s).2.map f) := by
  unfold StoreM.answer
  rw [h.run_eq]
  cases x.run s with
  | ok a s' => rfl
  | error e s' => rfl

lemma list_map (s : Store δ) : (s.map f).list = s.list := by
  rw [Store.list, Store.list, hf.chain_map]
  rfl

lemma readInto_map (id : Word) (buffer : List UInt8) (s : Store δ) :
    (s.map f).readInto id buffer = s.readInto id buffer := by
  rw [Store.readInto, Store.readInto, hf.find_map, hf.word_map]

lemma contains_map (id : Word) (s : Store δ) : (s.map f).contains id = s.contains id := by
  rw [Store.contains, Store.contains, hf.find_map]

lemma attach_map (d : δ) (p : Placement) : attach (f d) p = (attach d p).map (Store.map f) := by
  unfold attach
  rw [hf.pageSize_eq, hf.capacity_eq]
  cases p.check (FlashDevice.pageSize δ) (FlashDevice.capacity d) with
  | ok u => rfl
  | error e => rfl

end Transparent

/-! ### Sessions -/

variable [Addressable δ] [Addressable δ'] [PowerControlled δ] [PowerControlled δ']

/-- A map of devices that slices and the supply go through as well. -/
structure Faithful (f : δ → δ') : Prop extends Transparent f where
  slice_eq (d : δ) : Addressable.slice (f d) = Addressable.slice d
  cutPowerAfter_eq (n : Nat) (d : δ) :
    PowerControlled.cutPowerAfter n (f d) = f (PowerControlled.cutPowerAfter n d)
  restorePower_eq (d : δ) : PowerControlled.restorePower (f d) = f (PowerControlled.restorePower d)

/-- The session over the image of its device. -/
def Session.map (f : δ → δ') (x : Session δ) : Session δ' :=
  ⟨x.placement, match x.mount with
    | .device d => .device (f d)
    | .store s => .store (s.map f)⟩

namespace Faithful

variable (hf : Faithful f)
include hf

lemma read_map (id : Word) (s : Store δ) : (s.map f).read id = s.read id := by
  rw [Store.read, Store.read, hf.find_map, Store.map]
  dsimp only
  rw [hf.slice_eq]

/-- A command is answered the same over the image. -/
lemma run_map (command : StoreCommand) (s : Store δ) :
    command.run (s.map f) = ((command.run s).1, (command.run s).2.map f) := by
  cases command with
  | recover => exact Transparent.answer_map hf.recover _ s
  | format => exact Transparent.answer_map hf.format _ s
  | compact => exact Transparent.answer_map hf.compact _ s
  | compactIfLow => exact Transparent.answer_map hf.compactIfLow _ s
  | write id data => exact Transparent.answer_map (hf.write id data) _ s
  | erase id => exact Transparent.answer_map (hf.erase id) _ s
  | read id => exact congrArg (fun x => (Answer.ofStore _ x, s.map f)) (hf.read_map id s)
  | readInto id buffer =>
    exact congrArg (fun x => (Answer.ofStore _ x, s.map f)) (hf.readInto_map id buffer s)
  | contains id => exact congrArg (fun x => (Answer.ofStore _ x, s.map f)) (hf.contains_map id s)
  | reclaimable => exact congrArg (fun x => (Answer.ofStore _ x, s.map f)) (hf.reclaimable_map s)
  | list => exact congrArg (fun x => (Answer.ofStore _ x, s.map f)) (hf.list_map s)

lemma call_map (command : StoreCommand) (x : Session δ) :
    (x.map f).step (.store command) =
      ((x.step (.store command)).1, (x.step (.store command)).2.map f) := by
  obtain ⟨p, d | s⟩ := x
  · rfl
  · exact congrArg (fun r : Answer × Store δ' => (r.1, Session.mk p (.store r.2)))
      (hf.run_map command s)

/-- An event is answered the same over the image. -/
lemma step_map (e : Event) (x : Session δ) :
    (x.map f).step e.command = ((x.step e.command).1, (x.step e.command).2.map f) := by
  cases e with
  | opening how =>
    have hopened : Session.opened how (x.map f).device = f (Session.opened how x.device) := by
      obtain ⟨p, d | s⟩ := x <;> cases how <;> first | rfl | exact hf.restorePower_eq _
    show (x.map f).step (.opening how none) =
      ((x.step (.opening how none)).1, (x.step (.opening how none)).2.map f)
    rw [Session.step_opening, Session.step_opening, hopened,
      show (x.map f).placement = x.placement from rfl, hf.attach_map]
    cases attach (Session.opened how x.device) x.placement with
    | error e => rfl
    | ok s =>
      show (if how = .attach then _ else _) = _
      dsimp only
      split
      · rfl
      · exact hf.call_map .recover ⟨x.placement, .store s⟩
  | call command => exact hf.call_map command x
  | cutPowerAfter n =>
    obtain ⟨p, d | s⟩ := x
    · exact congrArg (fun d => (Answer.done, Session.mk p (.device d))) (hf.cutPowerAfter_eq n d)
    · exact congrArg (fun d => (Answer.done, Session.mk p (.store { s.map f with device := d })))
        (hf.cutPowerAfter_eq n s.device)
  | restorePower =>
    obtain ⟨p, d | s⟩ := x
    · exact congrArg (fun d => (Answer.done, Session.mk p (.device d))) (hf.restorePower_eq d)
    · exact congrArg (fun d => (Answer.done, Session.mk p (.store { s.map f with device := d })))
        (hf.restorePower_eq s.device)

/-- A session over the image is the image of the session. -/
theorem play_map (events : List Event) (x : Session δ) :
    (x.map f).play events = (x.play events).map f := by
  induction events generalizing x with
  | nil => rfl
  | cons e events ih =>
    rw [Session.play_cons, hf.step_map]
    exact ih (x.step e.command).2

end Faithful

/-! ### Traced sessions -/

omit [FlashDevice δ'] [Addressable δ'] [PowerControlled δ']

lemma Traced.faithful_device : Faithful (Traced.device : Traced δ → δ) where
  toTransparent := transparent_device
  slice_eq _ := rfl
  cutPowerAfter_eq _ _ := rfl
  restorePower_eq _ := rfl

/-- The store on the device without its trace. -/
def Store.untraced (s : Store (Traced δ)) : Store δ := s.map Traced.device

/-- The session on the device without its trace. -/
def Session.untraced (x : Session (Traced δ)) : Session δ :=
  ⟨x.placement, match x.mount with
    | .device d => .device d.device
    | .store s => .store s.untraced⟩

namespace Session

omit [FlashDevice δ] [Addressable δ] [PowerControlled δ] in
lemma untraced_eq_map (x : Session (Traced δ)) : x.untraced = x.map Traced.device := by
  obtain ⟨p, d | s⟩ := x <;> rfl

/-- An event is answered the same without the trace. -/
lemma step_untraced (e : Event) (x : Session (Traced δ)) :
    x.untraced.step e.command = ((x.step e.command).1, (x.step e.command).2.untraced) := by
  rw [untraced_eq_map, untraced_eq_map]
  exact Traced.faithful_device.step_map e x

/-- Without its trace a traced session is the session on the device. -/
theorem play_untraced (events : List Event) (x : Session (Traced δ)) :
    x.untraced.play events = (x.play events).untraced := by
  rw [untraced_eq_map, untraced_eq_map]
  exact Traced.faithful_device.play_map events x

end Session

end FlashStore
