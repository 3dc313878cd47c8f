import FlashStore.Proofs.Reading
import FlashStore.Session

/-!
# Commands to a store

What each command answers and does, said of the contents: `StoreCommand.check` tells whether it
can be carried out, `StoreCommand.effect` what it does then. On a healthy device a store in
service does as they prescribe.
-/

namespace FlashStore

open LawfulFlash Store

variable {δ α : Type} [FlashDevice δ] [LawfulFlash δ] {s : Store δ} {c c' : Contents} {k : Nat}

namespace StoreCommand

/-! ### What commands do to the contents -/

/-- What a command that succeeds makes of the contents. -/
def effect : StoreCommand → Contents → Contents
  | write id data, c => c.put id data
  | erase id, c => c.remove id
  | format, _ => []
  | _, c => c

/-- Whether a command can be carried out on the contents, or why not. -/
def check (capacity : Nat) : StoreCommand → Contents → Except StoreError Unit
  | write id data, c => c.checkPut capacity id data
  | erase id, c => (c.lookup id).map fun _ => ()
  | _, _ => .ok ()

/-- The contents after a command that is not interrupted. -/
def apply (capacity : Nat) (command : StoreCommand) (c : Contents) : Contents :=
  match command.check capacity c with
  | .ok () => command.effect c
  | .error _ => c

/-- The answers to a command that is not interrupted. -/
def Answers (capacity : Nat) (command : StoreCommand) (c : Contents) (a : Answer) : Prop :=
  match command with
  | recover | format | compact => a = .done
  | compactIfLow => ∃ b, a = .flag b
  | write _ _ | erase _ => a = .ofStore (fun _ => .done) (command.check capacity c)
  | read id => a = .ofStore (fun data => .bytes (some data)) (c.lookup id)
  | readInto id buffer => a = .ofStore (fun r => .copied r.1 r.2) (c.readInto id buffer)
  | contains id => a = .ofStore .flag (c.contains id)
  | reclaimable => ∃ n, a = .count n
  | list => ∃ rs, a = .listing ⟨rs, none⟩ ∧ (rs.map fun r => (r.id, r.length.toNat)) = c.listing

end StoreCommand

/-! ### Answers -/

/-- The device never refuses a proper program or erase. -/
def Store.Healthy (s : Store δ) : Prop :=
  ∀ k d e, Reaches k s.device d → ¬ Refuses d e

lemma Store.Continues.healthy {s' : Store δ} (h : s.Continues k s') (hh : s.Healthy) :
    s'.Healthy :=
  fun j d e hj => hh (k + j) d e (reaches_trans h.reaches hj)

omit [FlashDevice δ] [LawfulFlash δ] in
/-- The answer of an operation is told by how it ends. -/
lemma answer_of_ensures {x : StoreM δ α} {Q : α → Store δ → Prop} {E : StoreError → Store δ → Prop}
    (h : Ensures x s Q E) (f : α → Answer) :
    (∃ a s', x.answer f s = (f a, s') ∧ Q a s') ∨
      ∃ e s', x.answer f s = (.storeError e, s') ∧ E e s' := by
  unfold StoreM.answer
  cases hx : x.run s with
  | ok a s' => exact Or.inl ⟨a, s', rfl, h.of_ok hx⟩
  | error e s' => exact Or.inr ⟨e, s', rfl, h.of_error hx⟩

lemma Answer.done_ne_storeError (e : StoreError) : Answer.done ≠ .storeError e := nofun

omit [FlashDevice δ] [LawfulFlash δ] in
/-- An operation that answers with no error has ended well. -/
lemma run_of_answer {x : StoreM δ α} {f : α → Answer} {a : Answer} {s' : Store δ}
    (h : x.answer f s = (a, s')) (ha : ∀ e, a ≠ .storeError e) :
    ∃ b, f b = a ∧ x.run s = .ok b s' := by
  unfold StoreM.answer at h
  cases hx : x.run s with
  | ok b t =>
    rw [hx] at h
    obtain ⟨hb, rfl⟩ := Prod.mk.inj h
    exact ⟨b, hb, rfl⟩
  | error e t =>
    rw [hx] at h
    exact absurd (Prod.mk.inj h).1.symm (ha e)

omit [FlashDevice δ] [LawfulFlash δ] in
lemma answer_of_ok {x : StoreM δ α} {a : α} {s' : Store δ} (h : x.run s = .ok a s')
    (f : α → Answer) : x.answer f s = (f a, s') := by
  rw [StoreM.answer, h]

omit [FlashDevice δ] [LawfulFlash δ] in
lemma answer_of_error {x : StoreM δ α} {e : StoreError} {s' : Store δ}
    (h : x.run s = .error e s') (f : α → Answer) : x.answer f s = (.storeError e, s') := by
  rw [StoreM.answer, h]

omit [FlashDevice δ] [LawfulFlash δ] in
/-- An operation that answers with an error has failed with it. -/
lemma run_of_answer_error {x : StoreM δ α} {f : α → Answer} {e : StoreError} {s' : Store δ}
    (h : x.answer f s = (.storeError e, s')) (hf : ∀ a, f a ≠ .storeError e) :
    x.run s = .error e s' := by
  unfold StoreM.answer at h
  cases hx : x.run s with
  | ok a t =>
    rw [hx] at h
    exact absurd (Prod.mk.inj h).1 (hf a)
  | error e' t =>
    rw [hx] at h
    obtain ⟨he, rfl⟩ := Prod.mk.inj h
    rw [Answer.storeError.inj he]

/-- On a healthy device an operation that only the device can fail does not fail. -/
lemma answer_of_healthy {x : StoreM δ α} {Q : α → Nat → View → Prop}
    {E : StoreError → Nat → View → Prop} (hh : s.Healthy) (h : Acts x s Q E)
    (hE : ∀ e k v, E e k v → e.FromDevice) (f : α → Answer) :
    ∃ a s', x.answer f s = (f a, s') ∧ s'.Operable ∧ ∃ k, s.Continues k s' ∧ Q a k s'.view := by
  rcases answer_of_ensures h f with ⟨a, s', ha, hq⟩ | ⟨e, s', ha, hs', k, hk, hb, he⟩
  · exact ⟨a, s', ha, hq⟩
  · obtain ⟨e', rfl⟩ := hE e k _ he
    exact absurd (hb e' rfl) (hh k _ e' hk.reaches)

/-- On a healthy device an operation that succeeds only with these contents
goes on to serve them. -/
lemma serves_of_healthy {x : StoreM δ α} {Q : α → Nat → View → Prop}
    {E : StoreError → Nat → View → Prop} (hh : s.Healthy) (h : Acts x s Q E)
    (hE : ∀ e k v, E e k v → e.FromDevice) (hQ : ∀ a k v, Q a k v → v.Serves s.placement c)
    (f : α → Answer) :
    (∃ a, (x.answer f s).1 = f a) ∧ (x.answer f s).2.Operable ∧
      (∃ k, s.Continues k (x.answer f s).2) ∧ (x.answer f s).2.view.Serves s.placement c := by
  obtain ⟨a, s', ha, hs', k, hk, hq⟩ := answer_of_healthy hh h hE f
  rw [ha]
  exact ⟨⟨a, rfl⟩, hs', ⟨k, hk⟩, hQ a k _ hq⟩

/-- A formatted store serves no entries. -/
lemma serves_formatted {p : Placement} (hp : p.Regular) (m : Memory) :
    View.Serves p [] ⟨formatted p m, .a, 0, (p.block .a).first, true⟩ :=
  have h := consistent_formatted hp m
  ⟨rfl, h.1, h.2⟩

lemma answers_write_of_healthy [Addressable δ] (hs : s.Operable)
    (h : s.view.Serves s.placement c) (hh : s.Healthy) (id : Word) (data : List UInt8) :
    let command := StoreCommand.write id data
    command.Answers s.block.capacity c (command.run s).1 ∧ (command.run s).2.Operable ∧
      (∃ k, s.Continues k (command.run s).2) ∧
      (command.run s).2.view.Serves s.placement (command.apply s.block.capacity c) := by
  intro command
  rcases answer_of_ensures (ensures_write id data hs h) fun _ => .done with
    ⟨_, s', ha, hs', k, hk, hput, hv⟩ | ⟨e, s', ha, hs', k, hk, hb, hv⟩
  · rcases hv with hv | ⟨-, e, he⟩
    · simp only [command, StoreCommand.run, ha, StoreCommand.Answers, StoreCommand.apply,
        StoreCommand.check, hput]
      exact ⟨rfl, hs', ⟨k, hk⟩, hv⟩
    · exact absurd he (hh k _ e hk.reaches)
  · rcases hv with ⟨hput, hv⟩ | ⟨⟨e', rfl⟩, -⟩
    · simp only [command, StoreCommand.run, ha, StoreCommand.Answers, StoreCommand.apply,
        StoreCommand.check, hput]
      exact ⟨rfl, hs', ⟨k, hk⟩, hv⟩
    · exact absurd (hb e' rfl) (hh k _ e' hk.reaches)

/-- On a healthy device a store in service answers by its contents and goes on to serve what the
command makes of them. -/
theorem answers_of_healthy [Addressable δ] [LawfulAddressable δ] (hs : s.Operable)
    (h : s.view.Serves s.placement c) (hh : s.Healthy) (command : StoreCommand) :
    command.Answers s.block.capacity c (command.run s).1 ∧ (command.run s).2.Operable ∧
      (∃ k, s.Continues k (command.run s).2) ∧
      (command.run s).2.view.Serves s.placement (command.apply s.block.capacity c) := by
  -- A healthy device fails nothing, so of what bounds an operation only success is left.
  cases command with
  | recover =>
    have hpers : s.placement.persisted s.word = c := h.persisted
    obtain ⟨⟨_, ha⟩, hserves⟩ := serves_of_healthy hh (acts_recover hs) (fun _ _ _ he => he.1)
      (fun _ _ _ hv => hpers ▸ hv) fun _ => .done
    exact ⟨ha, hserves⟩
  | format =>
    obtain ⟨⟨_, ha⟩, hserves⟩ := serves_of_healthy hh (acts_format hs) (fun _ _ _ he => he.1)
      (fun _ _ _ hv => hv.2 ▸ serves_formatted hs.regular s.word) fun _ => .done
    exact ⟨ha, hserves⟩
  | compact =>
    obtain ⟨⟨_, ha⟩, hserves⟩ := serves_of_healthy hh (acts_compact hs h) (fun _ _ _ he => he.1)
      (fun _ _ _ hv => hv) fun _ => .done
    exact ⟨ha, hserves⟩
  | compactIfLow =>
    exact serves_of_healthy hh (acts_compactIfLow hs h) (fun _ _ _ he => he.1)
      (fun _ _ _ hv => hv) .flag
  | write id data =>
    exact answers_write_of_healthy hs h hh id data
  | erase id =>
    cases hl : c.lookup id with
    | error e =>
      have hrun := run_erase_of_find (find_of_lookup_error hs h hl)
      simp only [StoreCommand.run, StoreM.answer, hrun, StoreCommand.Answers, StoreCommand.apply,
        StoreCommand.check, hl]
      exact ⟨rfl, hs, ⟨0, .refl s⟩, h⟩
    | ok data =>
      obtain ⟨⟨_, ha⟩, hserves⟩ := serves_of_healthy hh (acts_erase hs h hl)
        (fun _ _ _ he => he.1) (fun _ _ _ hv => hv.2) fun _ => .done
      simp only [StoreCommand.Answers, StoreCommand.apply, StoreCommand.check, hl]
      exact ⟨ha, hserves⟩
  | read id =>
    exact ⟨congrArg (Answer.ofStore _) (read_of_serves hs h id), hs, ⟨0, .refl s⟩, h⟩
  | readInto id buffer =>
    exact ⟨congrArg (Answer.ofStore _) (readInto_of_serves hs h id buffer), hs, ⟨0, .refl s⟩, h⟩
  | contains id =>
    exact ⟨congrArg (Answer.ofStore _) (contains_of_serves hs h id), hs, ⟨0, .refl s⟩, h⟩
  | reclaimable =>
    exact ⟨⟨_, congrArg (Answer.ofStore _) (reclaimable_of_serves hs h)⟩, hs, ⟨0, .refl s⟩, h⟩
  | list =>
    obtain ⟨rs, hlist, hrs⟩ := list_of_serves hs h
    exact ⟨⟨rs, congrArg (Answer.ofStore _) hlist, hrs⟩, hs, ⟨0, .refl s⟩, h⟩

end FlashStore
