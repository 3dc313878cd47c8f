import FlashStore.Proofs.Sessions

/-!
# Simulation by contents

Over NOR flash that does not lose power a store is as good as its contents. From erased flash on,
every run of commands and restarts gets the answers that `StoreCommand.check` and
`StoreCommand.effect` give for the contents, and leaves the contents that they prescribe.
-/

namespace FlashStore

open LawfulFlash Store

namespace Event

/-- An event while power stays on: a command, or the store is opened and recovered anew. -/
def isUncut : Event → Bool
  | call _ | opening .mount | opening .reboot => true
  | _ => false

/-- The contents after an event that is not interrupted. -/
def apply (capacity : Nat) : Event → Contents → Contents
  | call command, c => command.apply capacity c
  | _, c => c

/-- The answers to an event that is not interrupted. -/
def Answers (capacity : Nat) (e : Event) (c : Contents) (a : Answer) : Prop :=
  match e with
  | call command => command.Answers capacity c a
  | _ => a = .done

end Event

variable {size page : Nat} {c : Contents} {p : Placement}

/-! ### Power that stays on -/

namespace NorFlash

lemma SpentBy.budget_eq_none {k : Nat} {d d' : NorFlash size page} (h : SpentBy k d d')
    (hd : d.budget = none) : d'.budget = none := by
  rcases h with ⟨-, h⟩ | ⟨n, h, -⟩
  · exact h
  · cases hd.symm.trans h

@[simp] lemma byte_blank (a : Nat) : (blank : NorFlash size page).byte a = 0xFF := by
  show (Vector.replicate size 0xFF)[a]?.getD 0xFF = 0xFF
  rw [Vector.getElem?_replicate]
  split <;> rfl

lemma readWord_blank (a : Nat) : (blank : NorFlash size page).readWord a = Word.erased :=
  readWord_of_bytes_erased fun _ _ => byte_blank _

/-- Nothing is stored on erased flash. -/
lemma persisted_blank (p : Placement) :
    p.persisted (blank : NorFlash size page).readWord = [] :=
  persisted_of_headers_none (header_eq_none (readWord_blank _)) (header_eq_none (readWord_blank _))

end NorFlash

variable [NorFlash.WordPages page]

lemma Store.healthy_of_budget {s : Store (NorFlash size page)} (h : s.device.budget = none) :
    s.Healthy := by
  rintro k d e hk ⟨-, hd⟩
  cases (NorFlash.SpentBy.budget_eq_none hk h).symm.trans hd

lemma Store.Continues.budget_eq_none {k : Nat} {s s' : Store (NorFlash size page)}
    (h : s.Continues k s') (hs : s.device.budget = none) : s'.device.budget = none :=
  NorFlash.SpentBy.budget_eq_none h.reaches hs

namespace Session

variable {x : Session (NorFlash size page)}

/-- A store serves these contents and power stays on. -/
structure Simulated (x : Session (NorFlash size page)) (c : Contents) : Prop where
  sound : x.Sound
  holds : x.Holds c
  budget : x.device.budget = none

/-- A command is answered by the contents. -/
lemma Simulated.call (hx : x.Simulated c) (command : StoreCommand) :
    command.Answers (x.placement.block .a).capacity c (x.step (.store command)).1 ∧
      (x.step (.store command)).2.Simulated
        (command.apply (x.placement.block .a).capacity c) := by
  obtain ⟨hsound, hholds, hbudget⟩ := hx
  obtain ⟨s, h, hin, hc⟩ := hholds
  obtain ⟨hp, -, hs, -⟩ := hsound s h
  have hserves := hsound.serves h hin
  rw [hsound.persisted_of_holds ⟨s, h, hin, hc⟩] at hserves
  rw [device_of_store? h] at hbudget
  obtain ⟨ha, hs', ⟨k, hk⟩, hserves'⟩ :=
    answers_of_healthy hs hserves (healthy_of_budget hbudget) command
  have hnext := (hsound.call h command).1
  rw [step_call h, ← hp] at hnext ⊢
  refine ⟨ha, hnext, ⟨_, rfl, hserves'.inService, ?_⟩, hk.budget_eq_none hbudget⟩
  exact contents_of_serves hs' (hk.placement_eq.symm ▸ hserves')

/-- With power a recovery succeeds and serves what is on flash. -/
lemma simulated_recover (hx : x.Sound) {s : Store (NorFlash size page)} (h : x.store? = some s)
    (hb : x.device.budget = none) :
    (x.step (.store .recover)).1 = .done ∧ (x.step (.store .recover)).2.Simulated x.persisted := by
  obtain ⟨hp, -, hs, -⟩ := hx s h
  rw [device_of_store? h] at hb
  obtain ⟨⟨_, ha⟩, hs', ⟨k, hk⟩, hserves⟩ := serves_of_healthy (healthy_of_budget hb)
    (acts_recover hs) (fun _ _ _ he => he.1) (fun _ _ _ hv => hv) fun _ => .done
  have hnext := (hx.call h .recover).1
  rw [step_call h] at hnext ⊢
  refine ⟨ha, hnext, ⟨_, rfl, hserves.inService, ?_⟩, hk.budget_eq_none hb⟩
  rw [persisted_of_store? h, ← hp]
  exact contents_of_serves hs' (hk.placement_eq.symm ▸ hserves)

/-- With power a store is opened over what is on flash. -/
lemma simulated_opening {how : Opening} (hhow : how ≠ .attach)
    (hb : (opened how x.device).budget = none)
    (h : x.placement.accepts (UInt32.ofNat page) (UInt32.ofNat size) = true) :
    (x.step (.opening how none)).1 = .done ∧
      (x.step (.opening how none)).2.Simulated x.persisted := by
  have hpers := (sound_opening how x).2.2
  obtain ⟨s, ha⟩ := attach_of_accepts (d := opened how x.device) h
  obtain ⟨hsound, hdev⟩ := sound_of_attach ha
  rw [step_opening_of_attach hhow ha] at hpers ⊢
  rw [← hpers, hsound.persisted_recover]
  refine simulated_recover hsound rfl ?_
  show s.device.budget = none
  rw [hdev]
  exact hb

/-- Every event that is not interrupted is answered by the contents. -/
lemma Simulated.step (hx : x.Simulated c)
    (h : x.placement.accepts (UInt32.ofNat page) (UInt32.ofNat size) = true) {e : Event}
    (he : e.isUncut = true) :
    e.Answers (x.placement.block .a).capacity c (x.step e.command).1 ∧
      (x.step e.command).2.Simulated (e.apply (x.placement.block .a).capacity c) := by
  have hc := hx.sound.persisted_of_holds hx.holds
  unfold Event.isUncut at he
  split at he
  · exact hx.call _
  · exact hc ▸ simulated_opening nofun hx.budget h
  · exact hc ▸ simulated_opening nofun rfl h
  · cases he

lemma Simulated.play (hx : x.Simulated c)
    (h : x.placement.accepts (UInt32.ofNat page) (UInt32.ofNat size) = true) {events : List Event}
    (he : ∀ e ∈ events, e.isUncut = true) :
    (x.play events).Simulated
      (events.foldl (fun c e => e.apply (x.placement.block .a).capacity c) c) := by
  induction events generalizing x c with
  | nil => exact hx
  | cons e events ih =>
    have hp := (hx.sound.step e).2
    have hnext := (hx.step h (he e List.mem_cons_self)).2
    have hplay := ih hnext (hp ▸ h) fun e' he' => he e' (List.mem_cons_of_mem _ he')
    rw [hp] at hplay
    exact hplay

/-- From erased flash on, every run without interruption makes its contents of none. -/
lemma simulated_from_blank (h : p.accepts (UInt32.ofNat page) (UInt32.ofNat size) = true)
    {events : List Event} (he : ∀ e ∈ events, e.isUncut = true) :
    let first := (start NorFlash.blank p : Session (NorFlash size page)).step (.opening .mount none)
    first.1 = .done ∧ (first.2.play events).placement = p ∧ (first.2.play events).Simulated
      (events.foldl (fun c e => e.apply (p.block .a).capacity c) []) := by
  intro first
  have hhow : Opening.mount ≠ .attach := nofun
  obtain ⟨hdone, hfirst⟩ := simulated_opening
    (x := (start NorFlash.blank p : Session (NorFlash size page))) hhow rfl h
  have hblank : (start NorFlash.blank p : Session (NorFlash size page)).persisted = [] :=
    NorFlash.persisted_blank p
  rw [hblank] at hfirst
  have hp : first.2.placement = p := (sound_opening .mount _).2.1
  have hplay := hfirst.play (by rw [hp]; exact h) he
  rw [hp] at hplay
  exact ⟨hdone, (hfirst.sound.play events).2.trans hp, hplay⟩

/-- From erased flash on, if its pages hold whole words, after every run of commands and restarts
the store holds the contents that the run makes of none, and the next event, which may ask any
question, is answered by them. -/
theorem answered_by_contents
    (h : p.accepts (UInt32.ofNat page) (UInt32.ofNat size) = true) {events : List Event}
    (he : ∀ e ∈ events, e.isUncut = true) {e : Event} (hlast : e.isUncut = true) :
    let first := (start NorFlash.blank p : Session (NorFlash size page)).step (.opening .mount none)
    let c := events.foldl (fun c e => e.apply (p.block .a).capacity c) []
    first.1 = .done ∧ (first.2.play events).Holds c ∧
      e.Answers (p.block .a).capacity c ((first.2.play events).step e.command).1 := by
  intro first c
  obtain ⟨hdone, hp, hplay⟩ := simulated_from_blank h he
  have hanswers := (hplay.step (by rw [hp]; exact h) hlast).1
  rw [hp] at hanswers
  exact ⟨hdone, hplay.holds, hanswers⟩

/-- In blocks of one record, a value written over another one is still there after a restart, and
leaves no room for a second one. -/
theorem answered_by_contents_of_one_record :
    let x := ((start NorFlash.blank ⟨0, 20, 20, 0⟩ : Session (NorFlash 40 20)).step
      (.opening .mount none)).2.play
        [.call (.write 1 [5, 6, 7, 8]), .call (.erase 1), .call (.write 1 [1, 2, 3, 4]),
          .opening .reboot]
    x.Holds [⟨1, [1, 2, 3, 4]⟩] ∧
      (x.step (.store (.write 2 [9, 9, 9, 9]))).1 = .storeError .full := by
  have h := @answered_by_contents 40 20 ⟨0, 20, 20, 0⟩ _ (by decide)
    [.call (.write 1 [5, 6, 7, 8]), .call (.erase 1), .call (.write 1 [1, 2, 3, 4]),
      .opening .reboot] (by simp [Event.isUncut]) (.call (.write 2 [9, 9, 9, 9])) rfl
  exact ⟨h.2.1, h.2.2⟩

end Session

end FlashStore
