import FlashStore.Flash.Unreliable
import FlashStore.Flash.Watched
import FlashStore.Proofs.Guards
import FlashStore.Proofs.Tracing

/-!
# Write protection

A store lifts write protection only for as long as it changes flash. Every call of a store returns
with protection in place, whether it succeeds, is refused or is cut short by the device, and in the
meantime nothing is programmed or erased while protection is in place: an operation inside another
one does not restore it early, and does not lift it twice.
-/

namespace FlashStore

variable {δ : Type} [FlashDevice δ] [PowerControlled δ]

/-! ### Devices with write protection -/

/-- A device that is write protected as it was asked to be last. -/
class WriteProtected (δ : Type) [FlashDevice δ] [PowerControlled δ] where
  locked : δ → Bool
  locked_unlock (d : δ) : locked (FlashDevice.unlock d) = false
  locked_lock (d : δ) : locked (FlashDevice.lock d) = true
  locked_programWord (a : Nat) (w : Word) (d : δ) : Ensures (FlashDevice.programWord a w) d
    (fun _ d' => locked d' = locked d) (fun _ d' => locked d' = locked d)
  locked_erasePage (a : Nat) (d : δ) : Ensures (FlashDevice.erasePage a) d
    (fun _ d' => locked d' = locked d) (fun _ d' => locked d' = locked d)
  locked_cutPowerAfter (n : Nat) (d : δ) : locked (PowerControlled.cutPowerAfter n d) = locked d
  locked_restorePower (d : δ) : locked (PowerControlled.restorePower d) = locked d

open WriteProtected

namespace NorFlash

variable {size page : Nat}

lemma locked_unlock (d : NorFlash size page) : (FlashDevice.unlock d).locked = false := rfl

lemma locked_lock (d : NorFlash size page) : (FlashDevice.lock d).locked = true := rfl

lemma locked_programWord (a : Nat) (w : Word) (d : NorFlash size page) :
    Ensures (FlashDevice.programWord a w) d (fun _ d' => d'.locked = d.locked)
      (fun _ d' => d'.locked = d.locked) := by
  unfold Ensures
  rw [flashDevice_programWord, run_programWord]
  cases d.refusal 4 a <;> rfl

lemma locked_erasePage (a : Nat) (d : NorFlash size page) :
    Ensures (FlashDevice.erasePage a) d (fun _ d' => d'.locked = d.locked)
      (fun _ d' => d'.locked = d.locked) := by
  unfold Ensures
  rw [flashDevice_erasePage, run_erasePage]
  cases d.refusal page a <;> rfl

instance : WriteProtected (NorFlash size page) where
  locked := locked
  locked_unlock := locked_unlock
  locked_lock := locked_lock
  locked_programWord := locked_programWord
  locked_erasePage := locked_erasePage
  locked_cutPowerAfter _ _ := rfl
  locked_restorePower _ := rfl

end NorFlash

namespace Unreliable

variable [WriteProtected δ]

/-- A call that fails without being passed on leaves protection as it is. -/
lemma locked_call {x : DeviceM δ Unit} {d : Unreliable δ}
    (h : Ensures x d.device (fun _ f => locked f = locked d.device)
      (fun _ f => locked f = locked d.device)) :
    Ensures (call x) d (fun _ d' => locked d'.device = locked d.device)
      (fun _ d' => locked d'.device = locked d.device) := by
  unfold Ensures
  cases hfailure : d.failure d.calls with
  | some e =>
    rw [run_call_of_failure hfailure]
  | none =>
    rw [run_call_of_none hfailure]
    cases hx : x.run d.device with
    | ok u d' => exact h.of_ok hx
    | error e d' => exact h.of_error hx

instance : WriteProtected (Unreliable δ) where
  locked d := locked d.device
  locked_unlock d := locked_unlock d.device
  locked_lock d := locked_lock d.device
  locked_programWord a w d := locked_call (locked_programWord a w d.device)
  locked_erasePage a d := locked_call (locked_erasePage a d.device)
  locked_cutPowerAfter n d := locked_cutPowerAfter n d.device
  locked_restorePower d := locked_restorePower d.device

end Unreliable

/-! ### Requests -/

/-- Protection is lifted where it is in place. Everything else is requested while it is lifted: to
program, to erase, and to restore protection. -/
def Request.IsTimely (locked : Bool) : Request → Prop
  | unlock => locked = true
  | lock | call _ => locked = false

/-- Every request came at its time. -/
def Watched.Orderly [WriteProtected δ] (d : Watched δ) : Prop :=
  ∀ f request, (f, request) ∈ d.requests → request.IsTimely (locked f)

variable [WriteProtected δ]

namespace Watched

variable {d : Watched δ}

omit [FlashDevice δ] [PowerControlled δ] [WriteProtected δ] in
/-- A call that is watched is passed on. -/
lemma mirrors_call (c : FlashCall) (x : DeviceM δ Unit) : Mirrors device (call c x) x := by
  intro d
  unfold Ensures
  rw [run_call]
  cases x.run d.device with
  | ok u inner => rfl
  | error e inner => rfl

omit [WriteProtected δ] in
lemma faithful_device [Addressable δ] : Faithful (device : Watched δ → δ) where
  pageSize_eq := rfl
  capacity_eq _ := rfl
  readWord_eq _ := rfl
  programWord a w := mirrors_call (.program a w) _
  erasePage a := mirrors_call (.erase a) _
  unlock_eq _ := rfl
  lock_eq _ := rfl
  slice_eq _ := rfl
  cutPowerAfter_eq _ _ := rfl
  restorePower_eq _ := rfl

lemma orderly_ofDevice (d : δ) : (ofDevice d).Orderly := fun _ _ => nofun

/-- One more request that comes at its time. -/
lemma Orderly.cons (h : d.Orderly) (request : Request) (hr : request.IsTimely (locked d.device))
    (f : δ) : Orderly ⟨f, (d.device, request) :: d.requests⟩ := by
  intro g r hmem
  rcases List.mem_cons.1 hmem with heq | hmem
  · obtain ⟨rfl, rfl⟩ := Prod.mk.inj heq
    exact hr
  · exact h g r hmem

lemma ensures_call {c : FlashCall} {x : DeviceM δ Unit}
    (hx : Ensures x d.device (fun _ f => locked f = locked d.device)
      (fun _ f => locked f = locked d.device)) (hlifted : locked d.device = false)
    (h : d.Orderly) :
    Ensures (call c x) d (fun _ d' => locked d'.device = false ∧ d'.Orderly)
      (fun _ d' => locked d'.device = false ∧ d'.Orderly) := by
  unfold Ensures
  rw [run_call]
  cases hrun : x.run d.device with
  | ok u f => exact ⟨(hx.of_ok hrun).trans hlifted, h.cons (.call c) hlifted f⟩
  | error e f => exact ⟨(hx.of_error hrun).trans hlifted, h.cons (.call c) hlifted f⟩

/-- Protection is in place or lifted, and every request came at its time. -/
def guard : Guard (Watched δ) where
  Shut d := locked d.device = true ∧ d.Orderly
  Open d := locked d.device = false ∧ d.Orderly
  unlock h := ⟨locked_unlock _, h.2.cons .unlock h.1 _⟩
  lock h := ⟨locked_lock _, h.2.cons .lock h.1 _⟩
  programWord a w h := ensures_call (locked_programWord a w _) h.1 h.2
  erasePage a h := ensures_call (locked_erasePage a _) h.1 h.2

end Watched

/-! ### Sessions -/

/-- A command that only asks what is stored. -/
def Command.IsQuestion : Command → Prop
  | store (.read _) | store (.readInto ..) | store (.contains _) | store .reclaimable
  | store .list => True
  | setting command => command.asks = true
  | _ => False

namespace Session

omit [WriteProtected δ] in
/-- Watching a device changes nothing. -/
theorem play_watched [Addressable δ] (d : δ) (placement : Placement) (events : List Event) :
    ((start (Watched.ofDevice d) placement).play events).map Watched.device =
      (start d placement).play events :=
  (Watched.faithful_device.play_map events (start (Watched.ofDevice d) placement)).symm

/-- A question leaves the session as it is, and requests nothing of the device. -/
lemma step_of_isQuestion {δ : Type} [FlashDevice δ] [Addressable δ] [PowerControlled δ]
    {command : Command} (h : command.IsQuestion) (x : Session δ) : (x.step command).2 = x := by
  obtain ⟨p, d | s⟩ := x
  · cases command <;> first | rfl | exact h.elim
  cases command with
  | store command => cases command <;> first | rfl | exact h.elim
  | setting command =>
    show (⟨p, .store (command.run s).2⟩ : Session δ) = _
    rw [SettingCommand.run_of_asks h]
  | _ => exact h.elim

/-- On a device that starts write protected, protection is in place between the commands of every
session and no operation is left that needs it lifted. -/
theorem protected_run [Addressable δ] {d : δ} (hd : locked d = true) (placement : Placement)
    (commands : List Command) :
    let x := run commands (start (Watched.ofDevice d) placement)
    locked x.device.device = true ∧ (∀ s, x.store? = some s → s.unlockDepth = 0) ∧
      x.device.Orderly := by
  intro x
  have hstart : Watched.guard.Keeps (start (Watched.ofDevice d) placement) :=
    ⟨hd, Watched.orderly_ofDevice d⟩
  have hcut (n : Nat) (d : Watched δ) (h : Watched.guard.Shut d) :
      Watched.guard.Shut (PowerControlled.cutPowerAfter n d) :=
    ⟨(locked_cutPowerAfter n d.device).trans h.1, h.2⟩
  have hrestore (d : Watched δ) (h : Watched.guard.Shut d) :
      Watched.guard.Shut (PowerControlled.restorePower d) :=
    ⟨(locked_restorePower d.device).trans h.1, h.2⟩
  have hx : Watched.guard.Keeps x := hstart.run hcut hrestore commands
  obtain ⟨hlocked, horderly⟩ := Guard.shut_of_keeps hx
  exact ⟨hlocked, fun s hs => (Guard.at_of_keeps hx hs).1, horderly⟩

/-- NOR flash that starts write protected, whatever it holds, whatever calls fail and whenever power
is cut, is write protected between the commands of every session, and no operation is left that
needs protection lifted. Within a command protection is lifted only where it is in place, restored
only where it is lifted, and nothing is programmed or erased while it is in place, whichever
operations are nested. A question requests nothing at all. -/
theorem protected_between_commands {size page : Nat} {d : Unreliable (NorFlash size page)}
    (hd : d.device.locked = true) (placement : Placement) (commands : List Command) :
    let x := run commands (start (Watched.ofDevice d) placement)
    x.device.device.device.locked = true ∧
      (∀ s, x.store? = some s → s.unlockDepth = 0) ∧
      (∀ f request, (f, request) ∈ x.device.requests → request.IsTimely f.device.locked) ∧
      ∀ command : Command, command.IsQuestion → (x.step command).2 = x := by
  intro x
  obtain ⟨hlocked, hdepth, horderly⟩ := protected_run (d := d) hd placement commands
  exact ⟨hlocked, hdepth, horderly, fun command h => step_of_isQuestion h x⟩

/-- The compaction inside a write fails at its second erase. -/
theorem protected_between_commands_of_failing_erase :
    let d : Unreliable (NorFlash 96 24) :=
      ⟨NorFlash.blank, fun n => if n = 15 then some .erase else none, 0⟩
    let commands : List Command := [.opening .mount none, .store (.write 1 [1, 2, 3, 4]),
      .store (.write 3 [1, 2, 3, 4]), .store (.erase 3),
      .store (.write 1 [1, 2, 3, 4, 5, 6, 7, 8, 9])]
    let x := run commands (start (Watched.ofDevice d) ⟨0, 48, 48, 20⟩)
    x.device.device.device.locked = true ∧
      x.store?.map (fun s => (s.inService, s.unlockDepth)) = some (false, 0) ∧
      (x.device.requests.take 4).map (fun r => (r.1.device.locked, r.2)) =
        [(false, .lock), (false, .call (.erase 72)), (false, .call (.erase 48)), (true, .unlock)] ∧
      (x.step (.store (.contains 1))).2 = x := by
  intro d commands x
  obtain ⟨hlocked, -, -, hquestion⟩ :=
    protected_between_commands (d := d) rfl ⟨0, 48, 48, 20⟩ commands
  exact ⟨hlocked, by decide +kernel, by decide +kernel, hquestion _ trivial⟩

end Session

end FlashStore
