import FlashStore.Flash.Traced
import FlashStore.Proofs.Footprints
import FlashStore.Proofs.Reading

/-!
# Sequences of calls

NOR flash under any sequence of programs, erases, pokes and changes of power and write protection,
whatever its size, its pages and its first content. An action that fails leaves everything as it is.
A call that succeeds changes its own word or page, and only erases and pokes set bits. Which calls
succeed is told by the actions before them: power that is cut after `n` calls lets the first `n`
through that are in place and find the flash unprotected, and none after these.
-/

namespace FlashStore

/-- The bytes of a conjunction of words, bit by bit. -/
lemma Word.toBytes_and (v w : Word) :
    (v &&& w).toBytes = List.zipWith (· &&& ·) v.toBytes w.toBytes := by
  have hbyte (k : Nat) : UInt8.ofNat ((v &&& w).toNat / 2 ^ k) =
      UInt8.ofNat (v.toNat / 2 ^ k) &&& UInt8.ofNat (w.toNat / 2 ^ k) := by
    rw [UInt32.toNat_and, Nat.and_div_two_pow, UInt8.ofNat_and]
  simp only [toBytes, List.zipWith_cons_cons, List.zipWith_nil_left, List.cons.injEq, and_true]
  exact ⟨by rw [UInt32.toNat_and, UInt8.ofNat_and], hbyte 8, hbyte 16, hbyte 24⟩

namespace FlashCall

/-- The first byte of the word or page. -/
def address : FlashCall → Nat
  | program a _ => a
  | erase a => a

/-- The length of the word or page. -/
def width (page : Nat) : FlashCall → Nat
  | program _ _ => 4
  | erase _ => page

/-- The addresses of the word or page. -/
def extent (page : Nat) (c : FlashCall) : Set Nat := Set.Ico c.address (c.address + c.width page)

/-- The address is one of a word or page of the flash. -/
def InPlace (size page : Nat) (c : FlashCall) : Prop :=
  c.address % c.width page = 0 ∧ c.address + c.width page ≤ size

end FlashCall

namespace NorFlash

variable {size page : Nat}

/-! ### Actions -/

/-- What can be done to flash on a test bench. -/
inductive Action where
  | call (c : FlashCall)
  | poke (a : Nat) (w : Word)
  | lock
  | unlock
  | cutPowerAfter (n : Nat)
  | restorePower
  deriving DecidableEq, Repr

namespace Action

def isProgram : Action → Bool
  | call (.program _ _) => true
  | _ => false

def isErase : Action → Bool
  | call (.erase _) => true
  | _ => false

def isPoke : Action → Bool
  | poke _ _ => true
  | _ => false

/-- A change of the power supply. -/
def isSupply : Action → Bool
  | cutPowerAfter _ | restorePower => true
  | _ => false

/-- Whether the flash is write protected from then on, if the action is about that. -/
def protection? : Action → Option Bool
  | lock => some true
  | unlock => some false
  | _ => none

/-- Do it to the flash. -/
def perform : Action → DeviceM (NorFlash size page) Unit
  | call (.program a w) => programWord a w
  | call (.erase a) => erasePage a
  | poke a w => NorFlash.poke a w
  | lock => modify NorFlash.lock
  | unlock => modify NorFlash.unlock
  | cutPowerAfter n => modify (NorFlash.cutPowerAfter n)
  | restorePower => modify NorFlash.restorePower

end Action

/-- What an action does to flash that does not refuse it. -/
def effect (d : NorFlash size page) : Action → NorFlash size page
  | .call (.program a w) =>
    { (d.put a (d.readWord a &&& w).toBytes).spend with programs := d.programs + 1 }
  | .call (.erase a) =>
    { (d.put a (List.replicate page 0xFF)).spend with erases := d.erases + 1 }
  | .poke a w => d.put a w.toBytes
  | .lock => d.lock
  | .unlock => d.unlock
  | .cutPowerAfter n => d.cutPowerAfter n
  | .restorePower => d.restorePower

/-- The call is in place and finds the flash unprotected. -/
def Admits (d : NorFlash size page) : Action → Prop
  | .call c => c.InPlace size page ∧ d.locked = false
  | _ => False

instance (d : NorFlash size page) : DecidablePred d.Admits := fun action =>
  match action with
  | .call _ => inferInstanceAs (Decidable ((_ ∧ _) ∧ _))
  | .poke .. | .lock | .unlock | .cutPowerAfter _ | .restorePower => instDecidableFalse

/-- How an action fails, if it does, and the flash after it. -/
def step (action : Action) (d : NorFlash size page) : Option DeviceError × NorFlash size page :=
  match action.perform.run d with
  | .ok _ d' => (none, d')
  | .error e d' => (some e, d')

/-- The flash after actions one after another, whether or not they fail. -/
def run : List Action → NorFlash size page → NorFlash size page
  | [], d => d
  | action :: actions, d => run actions (d.step action).2

/-- Actions one after another, each with the flash it finds. -/
def trace : List Action → NorFlash size page → List (NorFlash size page × Action)
  | [], _ => []
  | action :: actions, d => (d, action) :: trace actions (d.step action).2

/-- How many actions of a kind succeed. -/
def successes (kind : Action → Bool) (actions : List Action) (d : NorFlash size page) : Nat :=
  (d.trace actions).countP fun x => kind x.2 && (x.1.step x.2).1 == none

/-- How many calls are in place and find the flash unprotected. -/
def admitted (actions : List Action) (d : NorFlash size page) : Nat :=
  (d.trace actions).countP fun x => decide (x.1.Admits x.2)

/-- Whether new flash is write protected after actions: as the last one about it says. -/
def isProtectedAfter (actions : List Action) : Bool :=
  (actions.reverse.findSome? (·.protection?)).getD true

variable {d : NorFlash size page} {action : Action} {actions : List Action} {c : FlashCall}

@[simp] lemma run_nil (d : NorFlash size page) : d.run [] = d := rfl

@[simp] lemma run_cons (action : Action) (actions : List Action) (d : NorFlash size page) :
    d.run (action :: actions) = (d.step action).2.run actions := rfl

@[simp] lemma trace_nil (d : NorFlash size page) : d.trace [] = [] := rfl

@[simp] lemma trace_cons (action : Action) (actions : List Action) (d : NorFlash size page) :
    d.trace (action :: actions) = (d, action) :: (d.step action).2.trace actions := rfl

@[simp] lemma byte_effect_program (d : NorFlash size page) (a : Nat) (w : Word) (i : Nat) :
    (d.effect (.call (.program a w))).byte i =
      (d.put a (d.readWord a &&& w).toBytes).byte i := by
  simp only [effect, byte, put, spend]

@[simp] lemma readWord_effect_program (d : NorFlash size page) (a : Nat) (w : Word) (i : Nat) :
    (d.effect (.call (.program a w))).readWord i =
      (d.put a (d.readWord a &&& w).toBytes).readWord i := by
  simp only [effect, readWord, bytesFrom, byte, put, spend]

@[simp] lemma byte_effect_erase (d : NorFlash size page) (a i : Nat) :
    (d.effect (.call (.erase a))).byte i = (d.put a (List.replicate page 0xFF)).byte i := rfl

@[simp] lemma locked_effect_call (d : NorFlash size page) (c : FlashCall) :
    (d.effect (.call c)).locked = d.locked := by
  cases c <;> simp only [effect, put, spend]

@[simp] lemma budget_effect_call (d : NorFlash size page) (c : FlashCall) :
    (d.effect (.call c)).budget = d.budget.map (· - 1) := by
  cases c <;> simp only [effect, put, spend]

/-! ### One action -/

/-- A call is refused for its address, write protection or power, or has its effect. -/
lemma step_call (c : FlashCall) (d : NorFlash size page) :
    d.step (.call c) =
      match d.refusal (c.width page) c.address with
      | some e => (some e, d)
      | none => (none, d.effect (.call c)) := by
  cases c with
  | program a w =>
    unfold step Action.perform
    dsimp only [FlashCall.width, FlashCall.address]
    rw [run_programWord]
    cases d.refusal 4 a <;> rfl
  | erase a =>
    unfold step Action.perform
    dsimp only [FlashCall.width, FlashCall.address]
    rw [run_erasePage]
    cases d.refusal page a <;> rfl

/-- An action is refused and changes nothing, or has its effect. -/
lemma step_cases (action : Action) (d : NorFlash size page) :
    (∃ e, d.step action = (some e, d)) ∨ d.step action = (none, d.effect action) := by
  cases action with
  | call c =>
    rw [step_call]
    cases d.refusal (c.width page) c.address with
    | some e => exact Or.inl ⟨e, rfl⟩
    | none => exact Or.inr rfl
  | poke a w =>
    unfold step Action.perform NorFlash.poke EStateM.run
    dsimp only
    cases misplaced size 4 a with
    | some e => exact Or.inl ⟨e, rfl⟩
    | none => exact Or.inr rfl
  | lock | unlock | cutPowerAfter n | restorePower => exact Or.inr rfl

/-- An action that fails changes nothing. -/
lemma step_of_error {e : DeviceError} (h : (d.step action).1 = some e) : (d.step action).2 = d := by
  rcases step_cases action d with ⟨e', hstep⟩ | hstep
  · rw [hstep]
  · rw [hstep] at h
    cases h

lemma step_of_success (h : (d.step action).1 = none) : (d.step action).2 = d.effect action := by
  rcases step_cases action d with ⟨e, hstep⟩ | hstep
  · rw [hstep] at h
    cases h
  · rw [hstep]

lemma error_call (c : FlashCall) (d : NorFlash size page) :
    (d.step (.call c)).1 = d.refusal (c.width page) c.address := by
  rw [step_call]
  cases d.refusal (c.width page) c.address <;> rfl

/-- A call succeeds exactly if the flash admits it and has power. -/
lemma step_call_eq_none_iff :
    (d.step (.call c)).1 = none ↔ d.Admits (.call c) ∧ d.budget ≠ some 0 := by
  rw [error_call, refusal_eq_none_iff, ← and_assoc]
  rfl

/-- A call fails for want of power exactly if the flash admits it and has none. -/
lemma step_call_eq_powerLoss_iff :
    (d.step (.call c)).1 = some .powerLoss ↔ d.Admits (.call c) ∧ d.budget = some 0 := by
  rw [error_call, refusal_eq_powerLoss_iff, ← and_assoc]
  rfl

/-! ### Bytes -/

/-- A call changes its own word or page only. -/
lemma changedOn_step (c : FlashCall) (d : NorFlash size page) :
    d.ChangedOn (c.extent page) (d.step (.call c)).2 := by
  rcases step_cases (.call c) d with ⟨e, hstep⟩ | hstep
  · rw [hstep]
    exact refl_of _ d
  · rw [hstep]
    intro i hi
    cases c with
    | program a w =>
      rw [byte_effect_program]
      apply byte_put_of_notMem
      rwa [Word.length_toBytes]
    | erase a =>
      rw [byte_effect_erase]
      apply byte_put_of_notMem
      rwa [List.length_replicate]

/-- No bit is set that was clear before. -/
def OnlyClears (d d' : NorFlash size page) : Prop := ∀ i, d'.byte i &&& d.byte i = d'.byte i

instance : IsPreorder (NorFlash size page) OnlyClears where
  refl _ _ := UInt8.and_self
  trans d d' d'' h h' i := by
    calc d''.byte i &&& d.byte i
      _ = d''.byte i &&& (d'.byte i &&& d.byte i) := by rw [← UInt8.and_assoc, h' i]
      _ = d''.byte i := by rw [h i, h' i]

/-- A program that is in place keeps of each byte of its word what is set in the word given. -/
lemma onlyClears_program {a : Nat} (w : Word) (ha : a % 4 = 0) (hs : a + 4 ≤ size) :
    d.OnlyClears (d.put a (d.readWord a &&& w).toBytes) := by
  intro i
  by_cases hi : i ∈ Set.Ico a (a + 4)
  · obtain ⟨hle, hlt⟩ := hi
    have hold : (d.bytesFrom a 4)[i - a]? = some (d.byte i) := by
      simp [bytesFrom, Nat.add_sub_cancel' hle, show i - a < 4 by omega]
    obtain ⟨b, hb⟩ : ∃ b, w.toBytes[i - a]? = some b :=
      ⟨_, List.getElem?_eq_getElem (by rw [Word.length_toBytes]; omega)⟩
    have hnew : (d.put a (d.readWord a &&& w).toBytes).byte i = d.byte i &&& b := by
      rw [byte_put, if_pos ⟨hle, by omega⟩, Word.toBytes_and, d.toBytes_readWord ha hs,
        List.getElem?_zipWith, hold, hb]
      rfl
    rw [hnew, UInt8.and_comm, ← UInt8.and_assoc, UInt8.and_self]
  · rw [byte_put_of_notMem d hi]
    exact UInt8.and_self

/-- Apart from erases and pokes that succeed, an action sets no bit. -/
lemma onlyClears_step (h : (action.isErase || action.isPoke) = true → (d.step action).1 ≠ none) :
    d.OnlyClears (d.step action).2 := by
  cases hstep : (d.step action).1 with
  | some e =>
    rw [step_of_error hstep]
    exact refl_of _ d
  | none =>
    rw [step_of_success hstep]
    cases action with
    | call c =>
      cases c with
      | program a w =>
        obtain ⟨⟨⟨ha, hs⟩, -⟩, -⟩ := step_call_eq_none_iff.1 hstep
        intro i
        rw [byte_effect_program]
        exact onlyClears_program w ha hs i
      | erase a => exact absurd hstep (h rfl)
    | poke a w => exact absurd hstep (h rfl)
    | lock | unlock | cutPowerAfter n | restorePower => exact refl_of OnlyClears d

/-! ### Sequences -/

lemma onlyClears_run
    (h : ∀ x ∈ d.trace actions, (x.2.isErase || x.2.isPoke) = true → (x.1.step x.2).1 ≠ none) :
    d.OnlyClears (d.run actions) := by
  induction actions generalizing d with
  | nil => exact refl_of _ d
  | cons action actions ih =>
    have hstep := onlyClears_step (h _ List.mem_cons_self)
    have hrun := ih fun x hx => h x (List.mem_cons_of_mem _ hx)
    exact trans_of OnlyClears hstep hrun

/-- A number that every action raises by one or leaves counts the actions that raise it. -/
lemma count_run {count : NorFlash size page → Nat} {p : NorFlash size page × Action → Bool}
    (h : ∀ d action, count (d.step action).2 = count d + if p (d, action) then 1 else 0)
    (actions : List Action) (d : NorFlash size page) :
    count (d.run actions) = count d + (d.trace actions).countP p := by
  induction actions generalizing d with
  | nil => rfl
  | cons action actions ih =>
    rw [run_cons, ih, h, trace_cons, List.countP_cons]
    omega

/-- Programs and erases are counted when they succeed. -/
lemma counts_step (action : Action) (d : NorFlash size page) :
    (d.step action).2.programs =
        d.programs + (if action.isProgram && (d.step action).1 == none then 1 else 0) ∧
      (d.step action).2.erases =
        d.erases + (if action.isErase && (d.step action).1 == none then 1 else 0) := by
  rcases step_cases action d with ⟨e, hstep⟩ | hstep
  · simp [hstep]
  · rw [hstep]
    cases action with
    | call c => cases c <;> exact ⟨rfl, rfl⟩
    | poke | lock | unlock | cutPowerAfter | restorePower => exact ⟨rfl, rfl⟩

lemma programs_run (actions : List Action) (d : NorFlash size page) :
    (d.run actions).programs = d.programs + d.successes (·.isProgram) actions :=
  count_run (fun d action => (counts_step action d).1) actions d

lemma erases_run (actions : List Action) (d : NorFlash size page) :
    (d.run actions).erases = d.erases + d.successes (·.isErase) actions :=
  count_run (fun d action => (counts_step action d).2) actions d

/-- Power is spent on the calls that are admitted, as long as there is any. -/
lemma budget_step (h : action.isSupply = false) (d : NorFlash size page) :
    (d.step action).2.budget = d.budget.map (· - if d.Admits action then 1 else 0) := by
  have hkeep (hnot : ¬ d.Admits action) : (d.step action).2.budget = d.budget := by
    rcases step_cases action d with ⟨e, hstep⟩ | hstep
    · rw [hstep]
    · cases action with
      | call c => exact absurd (step_call_eq_none_iff.1 (congrArg Prod.fst hstep)).1 hnot
      | poke a w => simp only [hstep, effect, put]
      | lock | unlock => rfl
      | cutPowerAfter n => cases h
      | restorePower => cases h
  by_cases hadmits : d.Admits action
  · rw [if_pos hadmits]
    cases action with
    | call c =>
      by_cases hb : d.budget = some 0
      · -- The call fails, and the number at zero stays there.
        rw [step_of_error (step_call_eq_powerLoss_iff.2 ⟨hadmits, hb⟩), hb]
        rfl
      · rw [step_of_success (step_call_eq_none_iff.2 ⟨hadmits, hb⟩), budget_effect_call]
    | _ => exact hadmits.elim
  · rw [if_neg hadmits, hkeep hadmits]
    simp

lemma budget_run (h : ∀ action ∈ actions, action.isSupply = false) (d : NorFlash size page) :
    (d.run actions).budget = d.budget.map (· - d.admitted actions) := by
  induction actions generalizing d with
  | nil => simp [admitted]
  | cons action actions ih =>
    have hstep := budget_step (h action List.mem_cons_self) d
    have hrun := ih (fun action' h' => h action' (List.mem_cons_of_mem _ h')) (d.step action).2
    rw [run_cons, hrun, hstep, Option.map_map]
    congr 1
    funext n
    simp only [Function.comp_apply, admitted, trace_cons, List.countP_cons, decide_eq_true_eq]
    omega

lemma locked_step (action : Action) (d : NorFlash size page) :
    (d.step action).2.locked = action.protection?.getD d.locked := by
  cases action with
  | call c =>
    rcases step_cases (.call c) d with ⟨e, hstep⟩ | hstep
    · rw [hstep]
      rfl
    · rw [hstep, locked_effect_call]
      rfl
  | poke a w =>
    rcases step_cases (.poke a w) d with ⟨e, hstep⟩ | hstep
    · rw [hstep]
      rfl
    · simp only [hstep, effect, put, Action.protection?, Option.getD_none]
  | lock | unlock | cutPowerAfter | restorePower => rfl

/-- Write protection is what the last action about it made it. -/
lemma locked_run (actions : List Action) (d : NorFlash size page) :
    (d.run actions).locked = (actions.reverse.findSome? (·.protection?)).getD d.locked := by
  induction actions generalizing d with
  | nil => rfl
  | cons action actions ih =>
    rw [run_cons, ih, locked_step, List.reverse_cons, List.findSome?_append,
      List.findSome?_singleton, Option.getD_or]

/-- After a cut the calls that are admitted succeed until the budget is used up. -/
lemma step_after_cut (n : Nat) {later : List Action}
    (h : ∀ action ∈ later, action.isSupply = false) (c : FlashCall) (d : NorFlash size page) :
    let cut := (d.step (.cutPowerAfter n)).2
    (((cut.run later).step (.call c)).1 = none ↔
      (cut.run later).Admits (.call c) ∧ cut.admitted later < n) ∧
    (((cut.run later).step (.call c)).1 = some .powerLoss ↔
      (cut.run later).Admits (.call c) ∧ n ≤ cut.admitted later) := by
  intro cut
  have hbudget : (cut.run later).budget = some (n - cut.admitted later) := budget_run h cut
  rw [step_call_eq_none_iff, step_call_eq_powerLoss_iff, hbudget]
  simp only [ne_eq, Option.some.injEq]
  constructor
  · exact and_congr_right fun _ => by omega
  · exact and_congr_right fun _ => by omega

/-- With power restored every call that is admitted succeeds. -/
lemma step_after_restore {later : List Action} (h : ∀ action ∈ later, action.isSupply = false)
    (c : FlashCall) (d : NorFlash size page) :
    let restored := (d.step .restorePower).2
    ((restored.run later).step (.call c)).1 = none ↔ (restored.run later).Admits (.call c) := by
  intro restored
  have hbudget : (restored.run later).budget = none := budget_run h restored
  rw [step_call_eq_none_iff, hbudget]
  exact and_iff_left nofun

/-- Whatever the size, the pages and the first content of the flash, and whatever has been done to
it: an action that fails changes nothing. A program that succeeds joins the word there is bit by bit
with the one given, an erase that succeeds sets its page, and both leave every other byte alone.
Where no erase and no poke succeeds, bytes only lose bits. From a cut of power after `n` calls to
the next change of the supply, the first `n` calls succeed that are in place and find the flash
unprotected, every later one of these fails for want of power, and all others fail for another
reason; from a return of power on all calls of the kind succeed. The flash is protected as it was
asked to be last, and counts the programs and the erases that have succeeded. -/
theorem calls_accounted (bytes : Vector UInt8 size) (actions : List Action) :
    let start : NorFlash size page := ofBytes bytes
    let d := start.run actions
    (∀ action e, (d.step action).1 = some e → (d.step action).2 = d) ∧
    (∀ a w, (d.step (.call (.program a w))).1 = none →
      (d.step (.call (.program a w))).2.readWord a = d.readWord a &&& w ∧
      ∀ i ∉ Set.Ico a (a + 4), (d.step (.call (.program a w))).2.byte i = d.byte i) ∧
    (∀ a, (d.step (.call (.erase a))).1 = none →
      (∀ i ∈ Set.Ico a (a + page), (d.step (.call (.erase a))).2.byte i = 0xFF) ∧
      ∀ i ∉ Set.Ico a (a + page), (d.step (.call (.erase a))).2.byte i = d.byte i) ∧
    (∀ later, (∀ x ∈ d.trace later, (x.2.isErase || x.2.isPoke) = true → (x.1.step x.2).1 ≠ none) →
      ∀ i, (d.run later).byte i &&& d.byte i = (d.run later).byte i) ∧
    (∀ n later, (∀ action ∈ later, action.isSupply = false) →
      let cut := (d.step (.cutPowerAfter n)).2
      ∀ c, (((cut.run later).step (.call c)).1 = none ↔
          (cut.run later).Admits (.call c) ∧ cut.admitted later < n) ∧
        (((cut.run later).step (.call c)).1 = some .powerLoss ↔
          (cut.run later).Admits (.call c) ∧ n ≤ cut.admitted later)) ∧
    (∀ later, (∀ action ∈ later, action.isSupply = false) →
      let restored := (d.step .restorePower).2
      ∀ c, ((restored.run later).step (.call c)).1 = none ↔
        (restored.run later).Admits (.call c)) ∧
    d.locked = isProtectedAfter actions ∧
    d.programs = start.successes (·.isProgram) actions ∧
    d.erases = start.successes (·.isErase) actions := by
  intro start d
  refine ⟨fun action e => step_of_error, fun a w h => ?_, fun a h => ?_,
    fun later h => onlyClears_run h, fun n later h c => step_after_cut n h c d,
    fun later h c => step_after_restore h c d, locked_run actions start, ?_, ?_⟩
  · obtain ⟨⟨⟨ha, hs⟩, -⟩, -⟩ := step_call_eq_none_iff.1 h
    refine ⟨?_, changedOn_step (.program a w) d⟩
    rw [step_of_success h, readWord_effect_program]
    exact readWord_put d _ ha hs
  · obtain ⟨⟨⟨-, hs⟩, -⟩, -⟩ := step_call_eq_none_iff.1 h
    refine ⟨fun i hi => ?_, changedOn_step (.erase a) d⟩
    rw [step_of_success h, byte_effect_erase]
    exact d.byte_put_replicate 0xFF hi.1 hi.2 hs
  · exact (programs_run actions start).trans (Nat.zero_add _)
  · exact (erases_run actions start).trans (Nat.zero_add _)

/-- Flash of one page and a half. Of the calls made after the cut, one that finds the flash
protected and one that is out of place leave the power for two others. -/
theorem calls_accounted_of_two_calls :
    let d := (filled 0xCD : NorFlash 9 6).run [.call (.program 0 0), .unlock,
      .call (.program 4 0xF0F0F0F0), .poke 0 0x01020304]
    let later : List Action := [.call (.program 4 0xFFFF), .lock, .call (.program 0 0), .unlock,
      .call (.program 2 0), .call (.program 0 0)]
    let cut := (d.step (.cutPowerAfter 2)).2
    let restored := (d.step .restorePower).2
    (d.step (.call (.erase 6))).1 = some .outOfBounds ∧ (d.step (.call (.erase 6))).2 = d ∧
    (d.step (.call (.program 4 0xFF00FF00))).2.readWord 4 = 0xC000C000 ∧
    (d.step (.call (.erase 0))).2.byte 5 = 0xFF ∧ (d.step (.call (.erase 0))).2.byte 6 = 0xC0 ∧
    (∀ i, (d.run later).byte i &&& d.byte i = (d.run later).byte i) ∧
    ((cut.run later).step (.call (.erase 0))).1 = some .powerLoss ∧
    ((restored.run later).step (.call (.erase 0))).1 = none ∧
    d.locked = false ∧ d.programs = 1 ∧ d.erases = 0 := by
  intro d later cut restored
  obtain ⟨hkeep, hprogram, herase, hclears, hcut, hrestored, hlocked, hprograms, herases⟩ :=
    @calls_accounted 9 6 (Vector.replicate 9 0xCD) [.call (.program 0 0), .unlock,
      .call (.program 4 0xF0F0F0F0), .poke 0 0x01020304]
  have hout : (d.step (.call (.erase 6))).1 = some .outOfBounds := by decide +kernel
  have hword := (hprogram 4 0xFF00FF00 (by decide +kernel)).1
  obtain ⟨hpage, hrest⟩ := herase 0 (by decide +kernel)
  have hsupply : ∀ action ∈ later, action.isSupply = false := by decide
  exact ⟨hout, hkeep _ _ hout, hword.trans (by decide +kernel), hpage 5 (by decide),
    (hrest 6 (by decide)).trans (by decide +kernel), hclears later (by decide +kernel),
    (hcut 2 later hsupply (.erase 0)).2.2 (by decide +kernel),
    (hrestored later hsupply (.erase 0)).2 (by decide +kernel), hlocked.trans (by decide),
    hprograms.trans (by decide +kernel), herases.trans (by decide +kernel)⟩

end NorFlash

end FlashStore
