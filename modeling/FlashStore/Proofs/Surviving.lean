import FlashStore.Proofs.Bounds
import FlashStore.Proofs.Commands

/-!
# What survives the operations

A kind of store that survives work on records, and compactions from some generations, survives
every call that starts no other compaction: `Survives.run`. Which compactions a call starts is told
by `StoreCommand.compactions`. For one, no call leaves the two blocks, and one that starts no
compaction does not leave the records of the current one.
-/

namespace FlashStore

open NorFlash

variable {size page : Nat} {α β : Type}

/-! ### When compactions start -/

/-- Whether free space is below the reserve while there is something to reclaim. -/
def Store.isLow {δ : Type} [FlashDevice δ] (s : Store δ) : Bool :=
  s.inService && decide (s.free < s.placement.reserve.toNat) &&
    match s.reclaimable with
    | .ok n => n != 0
    | .error _ => false

/-- The generations that a command starts compactions at, in order. -/
def StoreCommand.compactions {δ : Type} [FlashDevice δ] (s : Store δ) : StoreCommand → List Word
  | recover =>
    match s.newest? with
    | some (side, g) => if (s.resume side g).needsRepair then [g] else []
    | none => []
  | compact => if s.inService then [s.generation] else []
  | compactIfLow => if s.isLow then [s.generation] else []
  | write id data =>
    match Store.checkWrite id data s with
    | .error _ => []
    | .ok () =>
      (if s.free < recordSpan data.length then [s.generation] else []) ++
        match (Store.suspendOnFailure (Store.withUnlocked (Store.append id data))).run s with
        | .ok () s' => if s'.isLow then [s'.generation] else []
        | .error _ _ => []
  | _ => []

namespace Store

section

variable {δ : Type} [FlashDevice δ] {s s' : Store δ} {id : Word} {data : List UInt8}

omit [FlashDevice δ] in
/-- Whether a failure would put the store out of service does not show in a success. -/
lemma run_suspendOnFailure_eq_ok_iff {x : StoreM δ α} {a : α} :
    (suspendOnFailure x).run s = .ok a s' ↔ x.run s = .ok a s' := by
  rw [run_suspendOnFailure]
  cases x.run s <;> simp

/-- A compaction for want of space runs exactly if space is low. -/
lemma run_compactIfLow_eq {n : Nat} (hin : s.inService = true) (hn : s.reclaimable = .ok n) :
    (compactIfLow : StoreM δ Bool).run s =
      if s.isLow then (do suspendOnFailure compactNow; return true : StoreM δ Bool).run s
      else .ok false s := by
  have hquery : (suspendOnFailure (query reclaimable)).run s = .ok n s := by
    rw [run_suspendOnFailure_eq_ok_iff, run_query, hn]
  have hservice : (query requireService).run s = .ok () s := by
    rw [run_query, requireService_eq_ok_iff.2 hin]
  unfold compactIfLow isLow
  rw [EStateM.run_bind, hservice, hin, hn]
  dsimp only
  rw [EStateM.run_bind, EStateM.run_get]
  dsimp only
  rw [EStateM.run_bind, EStateM.run_get]
  dsimp only
  by_cases hfree : s.placement.reserve.toNat ≤ s.free
  · simp [hfree, Nat.not_lt.2 hfree]
  · rw [if_neg hfree, EStateM.run_bind, hquery]
    dsimp only
    by_cases hzero : n = 0
    · simp [hzero]
    · simp [hzero, Nat.lt_of_not_le hfree]

/-- A write that is done has appended its record, and then compacted or tried to if space was low. -/
lemma run_write_eq_ok {u : Unit} (h : (write id data).run s = .ok u s') :
    checkWrite id data s = .ok () ∧
      ∃ s₁, (suspendOnFailure (withUnlocked (append id data))).run s = .ok () s₁ ∧
        ((∃ b, (compactIfLow : StoreM δ Bool).run s₁ = .ok b s') ∨
          ∃ e, (compactIfLow : StoreM δ Bool).run s₁ = .error e s') := by
  cases hcheck : checkWrite id data s with
  | error e =>
    rw [run_write_of_checkWrite hcheck] at h
    cases h
  | ok v =>
    have hsteps : Ensures (write id data) s (fun _ s' =>
        ∃ s₁, (suspendOnFailure (withUnlocked (append id data))).run s = .ok () s₁ ∧
          ((∃ b, (compactIfLow : StoreM δ Bool).run s₁ = .ok b s') ∨
            ∃ e, (compactIfLow : StoreM δ Bool).run s₁ = .error e s')) (fun _ _ => True) := by
      unfold write
      refine Ensures.query_bind hcheck ?_
      refine Ensures.bind ((Ensures.self _ _).mono (fun _ _ h => h) fun _ _ _ => trivial) ?_
      intro _ s₁ hs₁
      refine Ensures.tryCatch (Ensures.bind (Ensures.self _ _) ?_) ?_
      · intro b s₂ hs₂
        exact Ensures.pure ⟨s₁, hs₁, Or.inl ⟨b, hs₂⟩⟩
      · intro e s₂ hs₂
        exact Ensures.pure ⟨s₁, hs₁, Or.inr ⟨e, hs₂⟩⟩
    exact ⟨rfl, hsteps.of_ok h⟩

end

variable {s s' : NorStore size page}

/-! ### What survives the operations -/

lemma inService_of_checkWrite {δ : Type} {s : Store δ} {id : Word} {data : List UInt8} {u : Unit}
    (h : checkWrite id data s = .ok u) : s.inService = true := by
  rw [checkWrite_eq] at h
  cases hin : s.inService with
  | true => rfl
  | false =>
    rw [hin] at h
    split_ifs at h
    simp_all

/-- However the operation ends, the store is of a kind. -/
def Keeps (R : NorStore size page → NorStore size page → Prop) (T : NorStore size page → Prop)
    (x : StoreM (NorFlash size page) α) (s : NorStore size page) : Prop :=
  Leads R x s (fun _ s' => T s') (fun _ s' => T s')

/-- However the operation ends, the store is of a kind once a failure has suspended it. -/
def KeepsSuspended (R : NorStore size page → NorStore size page → Prop)
    (T : NorStore size page → Prop) (x : StoreM (NorFlash size page) α)
    (s : NorStore size page) : Prop :=
  Leads R x s (fun _ s' => T s') (fun e s' => T (s'.suspend e))

/-- Stores of a kind stay so, and go up a preorder, under work on records, and under compactions
from some generations. A compaction that fails need not leave such a store in service. -/
structure Survives (R : NorStore size page → NorStore size page → Prop)
    (T : NorStore size page → Prop) (C : Word → Prop) : Prop where
  leads : ∀ {s s' : NorStore size page}, s.Stays s' → R s s'
  bounded : ∀ {s}, T s → s.Bounded
  keeps : ∀ {s s'}, T s → s.Stays s' → T s'
  compactNow : ∀ {s}, T s.serve → C s.generation → Leads R compactNow s
    (fun _ s' => s'.inService = s.inService ∧ T s'.serve)
    (fun e s' => e.isDisruptive = true ∧ s'.inService = s.inService ∧ T s'.retire)

lemma Keeps.answer {R : NorStore size page → NorStore size page → Prop}
    {T : NorStore size page → Prop} {x : StoreM (NorFlash size page) α} (h : Keeps R T x s)
    (f : α → Answer) : R s (x.answer f s).2 ∧ T (x.answer f s).2 := by
  rcases answer_of_ensures h f with ⟨a, s', ha, hs'⟩ | ⟨e, s', ha, hs'⟩
  · rw [ha]
    exact hs'
  · rw [ha]
    exact hs'

namespace Survives

variable {R : NorStore size page → NorStore size page → Prop}
  [IsPreorder (NorStore size page) R] {T : NorStore size page → Prop} {C : Word → Prop}
  (h : Survives R T C) (hs : T s)
include h

lemma suspendOnFailure {x : StoreM (NorFlash size page) α} {V : α → NorStore size page → Prop}
    (hx : Leads R x s V fun e s' => T (s'.suspend e)) :
    Leads R (suspendOnFailure x) s V fun _ s' => T s' := by
  apply (leads_suspendOnFailure h.leads hx).mono (fun _ h => h) fun _ _ h => h
  rintro e _ ⟨t, rfl, ht⟩
  exact ht

include hs

omit [IsPreorder (NorStore size page) R] in
/-- What works on records only keeps the store of its kind. -/
lemma of_stays {x : StoreM (NorFlash size page) α} {V : α → NorStore size page → Prop}
    {E : StoreError → NorStore size page → Prop} (hx : Leads Stays x s V E) :
    Leads R x s (fun a s' => T s' ∧ V a s') (fun e s' => T (s'.suspend e) ∧ T s') := by
  apply Ensures.mono hx
  · rintro a s' ⟨hs', hv⟩
    exact ⟨h.leads hs', h.keeps hs hs', hv⟩
  · rintro e s' ⟨hs', -⟩
    have hs'' := h.keeps hs hs'
    exact ⟨h.leads hs', h.keeps hs'' (stays_suspend e s'), hs''⟩

omit [IsPreorder (NorStore size page) R] in
lemma keepsSuspended_of_stays {x : StoreM (NorFlash size page) α}
    {V : α → NorStore size page → Prop} {E : StoreError → NorStore size page → Prop}
    (hx : Leads Stays x s V E) : KeepsSuspended R T x s :=
  (h.of_stays hs hx).mono (fun _ h => h) (fun _ _ h => h.1) fun _ _ h => h.1

lemma withUnlocked {x : StoreM (NorFlash size page) α}
    (hx : T s.beginUnlocked → KeepsSuspended R T x s.beginUnlocked) :
    KeepsSuspended R T (withUnlocked x) s := by
  have hbegin := h.keeps hs (stays_beginUnlocked s)
  apply (leads_withUnlocked h.leads (hx hbegin)).mono (fun _ h => h)
  · rintro _ _ ⟨t, rfl, ht⟩
    exact h.keeps ht (stays_endUnlocked t)
  · rintro e _ ⟨t, rfl, ht⟩
    exact h.keeps ht (stays_endUnlocked (t.suspend e))

/-- A refused question leaves the store of its kind. -/
lemma query_bind {f : NorStore size page → Except StoreError α}
    {g : α → StoreM (NorFlash size page) β} (hg : ∀ a, f s = .ok a → Keeps R T (g a) s) :
    Keeps R T (query f >>= g) s := by
  apply Leads.bind (V := fun a s' => s' = s ∧ f s = .ok a)
  · exact (h.of_stays hs (stays_query f)).mono (fun _ h => h) (fun _ _ h => h.2) fun _ _ h => h.2
  · rintro a s' - ⟨rfl, ha⟩
    exact hg a ha

omit [IsPreorder (NorStore size page) R] in
lemma keepsSuspended_compactNow (hin : s.inService = true) (hC : C s.generation) :
    KeepsSuspended R T Store.compactNow s := by
  apply (h.compactNow (by rwa [serve_eq hin]) hC).mono (fun _ h => h)
  · rintro _ s' ⟨hin', hs'⟩
    rwa [serve_eq (hin'.trans hin)] at hs'
  · rintro e s' ⟨he, -, hs'⟩
    rwa [suspend_of_isDisruptive he]

lemma append (id : Word) (data : List UInt8) (hin : s.inService = true)
    (hC : s.free < recordSpan data.length → C s.generation) :
    KeepsSuspended R T (append id data) s := by
  rw [append_eq]
  apply Leads.get_bind
  split_ifs with hfree
  · apply Leads.bind (h.keepsSuspended_compactNow hs hin (hC hfree))
    intro _ s₁ _ hs₁
    apply Leads.get_bind
    split_ifs with hfree₁
    · apply Leads.bind (V := fun _ _ => False)
      · exact Leads.throw (h.keeps hs₁ (stays_suspend _ s₁))
      · exact fun _ _ _ hfalse => hfalse.elim
    · exact h.keepsSuspended_of_stays hs₁ (stays_placeRecord id data (h.bounded hs₁) hfree₁)
  · exact h.keepsSuspended_of_stays hs (stays_placeRecord id data (h.bounded hs) hfree)

lemma compact (hC : s.inService = true → C s.generation) : Keeps R T compact s := by
  apply h.query_bind hs
  intro _ hservice
  have hin := requireService_eq_ok_iff.1 hservice
  exact h.suspendOnFailure (h.keepsSuspended_compactNow hs hin (hC hin))

lemma compactIfLow (hC : s.isLow = true → C s.generation) : Keeps R T compactIfLow s := by
  apply h.query_bind hs
  intro _ hservice
  have hin := requireService_eq_ok_iff.1 hservice
  apply Leads.get_bind
  apply Leads.get_bind
  split_ifs with hfree
  · exact Leads.pure hs
  · have hquery := (h.of_stays hs (stays_query reclaimable)).mono (fun _ h => h) (fun _ _ h => h)
      fun _ _ h => h.1
    apply Leads.bind (h.suspendOnFailure hquery)
    rintro n s₁ - ⟨hs₁, hs₁_eq, hn⟩
    rw [hs₁_eq] at hs₁ ⊢
    split_ifs with hzero
    · exact Leads.pure hs
    · have hlow : s.isLow = true := by
        simp only [isLow, hin, hn, Bool.true_and, Bool.and_eq_true, decide_eq_true_eq, bne_iff_ne]
        exact ⟨Nat.lt_of_not_le hfree, hzero⟩
      apply Leads.bind (h.suspendOnFailure (h.keepsSuspended_compactNow hs hin (hC hlow)))
      intro _ s₂ _ hs₂
      exact Leads.pure hs₂

omit hs in
/-- A write compacts for want of room, and again if space is low afterwards. -/
lemma write (hs : T s) (id : Word) (data : List UInt8)
    (hC : ∀ g ∈ (StoreCommand.write id data).compactions s, C g) :
    Keeps R T (write id data) s := by
  apply h.query_bind hs
  intro _ hcheck
  have hin : s.inService = true := inService_of_checkWrite hcheck
  simp only [StoreCommand.compactions, hcheck, List.mem_append] at hC
  have happend : KeepsSuspended R T (Store.withUnlocked (Store.append id data)) s := by
    apply h.withUnlocked hs
    intro hbegin
    apply h.append hbegin id data hin
    intro (hfree : s.free < recordSpan data.length)
    apply hC s.generation
    rw [if_pos hfree]
    exact Or.inl (List.mem_singleton_self _)
  apply Leads.bind (h.suspendOnFailure happend).with_run
  rintro _ s₁ - ⟨hs₁, hrun⟩
  have hlow : Keeps R T Store.compactIfLow s₁ := by
    apply h.compactIfLow hs₁
    intro hlow
    apply hC s₁.generation
    rw [hrun]
    right
    show s₁.generation ∈ if s₁.isLow then [s₁.generation] else []
    rw [if_pos hlow]
    exact List.mem_singleton_self _
  have hdiscard : Keeps R T (discard Store.compactIfLow) s₁ :=
    Leads.bind hlow fun _ s₂ _ hs₂ => Leads.pure hs₂
  apply Ensures.tryCatch hdiscard
  rintro e s₂ ⟨hlead, hs₂⟩
  exact Ensures.pure ⟨hlead, hs₂⟩

/-- An erase works on records only. -/
lemma erase (id : Word) : Keeps R T (erase id) s := by
  apply h.query_bind hs
  intro _ _
  apply h.suspendOnFailure
  apply h.withUnlocked hs
  intro hbegin
  apply h.keepsSuspended_of_stays hbegin (V := fun _ _ => True) (E := fun _ _ => True)
  apply Leads.get_bind
  apply Leads.bind (V := fun _ _ => True)
  · apply Leads.forM
    intro r hr s₁ hs₁
    exact stays_removeRecord (List.mem_filter.1 hr).1 hs₁.block_eq
  · intro _ s₁ _ _
    exact (stays_query _).mono (fun _ h => h) (fun _ _ _ => trivial) fun _ _ _ => trivial

omit hs in
/-- A recovery formats the store, or opens the block in use, which it may compact. -/
lemma recover (hserve : ∀ s : NorStore size page, R s s.serve)
    (hformat : s.newest? = none → Keeps R T format s.retire)
    (hopen : ∀ side g, s.newest? = some (side, g) →
      R s.retire (s.retire.resume side g) ∧ T (s.retire.resume side g).serve)
    (hC : ∀ g ∈ StoreCommand.recover.compactions s, C g) : Keeps R T recover s := by
  unfold Store.recover
  apply Leads.bind (Leads.modify (V := fun _ s₁ => s₁ = s.retire) (h.leads (stays_retire s)) rfl)
  rintro _ _ - rfl
  apply Leads.get_bind
  have hnewest : s.retire.newest? = s.newest? := rfl
  rw [hnewest]
  cases hn : s.newest? with
  | none => exact hformat hn
  | some found =>
    obtain ⟨side, g⟩ := found
    obtain ⟨hleads, hs₁⟩ := hopen side g hn
    apply Leads.bind (Leads.modify (V := fun _ s₁ => s₁ = s.retire.resume side g) hleads rfl)
    rintro _ _ - rfl
    -- What both ways through a recovery end with: the removals and the return to service.
    have hsettle {s₂ : NorStore size page} (hin : s₂.inService = false) (hs₂ : T s₂.serve) :
        Keeps R T (do removeSuperseded; modify fun s => { s with inService := true }) s₂ := by
      have hs₂' : T s₂ := by
        rw [← retire_eq hin]
        exact h.keeps hs₂ (stays_retire s₂.serve)
      apply Leads.bind (V := fun _ s₃ => T s₃.serve)
      · apply Ensures.mono stays_removeSuperseded
        · rintro _ s₃ ⟨hs₃, -⟩
          exact ⟨h.leads hs₃, h.keeps hs₂ hs₃.serve⟩
        · rintro e s₃ ⟨hs₃, -⟩
          exact ⟨h.leads hs₃, h.keeps hs₂' hs₃⟩
      · intro _ s₃ _ hs₃
        exact Leads.modify (hserve s₃) hs₃
    apply Leads.get_bind
    split_ifs with hrepair
    -- The compaction of a repair is the one that `compactions` lists.
    · have hg : C g := by
        apply hC
        have hrepair' : (s.resume side g).needsRepair = true := hrepair
        simp [StoreCommand.compactions, hn, hrepair']
      apply Leads.bind (V := fun _ s₂ => s₂.inService = false ∧ T s₂.serve)
      · apply (h.compactNow hs₁ hg).mono (fun _ h => h) (fun _ _ h => h)
        rintro e s₂ ⟨-, hin, hs₂⟩
        rwa [retire_eq hin] at hs₂
      · rintro _ s₂ - ⟨hin, hs₂⟩
        exact hsettle hin hs₂
    · exact hsettle rfl hs₁

/-- A call keeps the store of its kind, given that a recovery or format does. -/
theorem run {command : StoreCommand} (hC : ∀ g ∈ command.compactions s, C g)
    (hrecover : command = .recover → Keeps R T Store.recover s)
    (hformat : command = .format → Keeps R T format s) :
    R s (command.run s).2 ∧ T (command.run s).2 := by
  cases command with
  | recover => exact (hrecover rfl).answer _
  | format => exact (hformat rfl).answer _
  | compact =>
    have hcompact : s.inService = true → C s.generation := by
      intro hin
      apply hC
      simp [StoreCommand.compactions, hin]
    exact (h.compact hs hcompact).answer _
  | compactIfLow =>
    have hcompact : s.isLow = true → C s.generation := by
      intro hlow
      apply hC
      simp [StoreCommand.compactions, hlow]
    exact (h.compactIfLow hs hcompact).answer _
  | write id data => exact (h.write hs id data hC).answer _
  | erase id => exact (h.erase hs id).answer _
  | read | readInto | contains | reclaimable | list => exact ⟨refl_of R s, hs⟩

end Survives

/-! ### Bounds of the operations -/

/-- Work on records stays in the current block. -/
lemma survives_stays : @Survives size page Stays Bounded fun _ => False where
  leads h := h
  bounded h := h
  keeps hs h := h.bounded hs
  compactNow _ h := h.elim

lemma bounded_serve_iff : s.serve.Bounded ↔ s.Bounded :=
  ⟨fun h => h.frame, fun h => h.frame⟩

lemma Bounded.resume (hs : s.Bounded) (side : Side) (g : Word) : (s.resume side g).Bounded := by
  have hroom := hs.fits.first_add_le side
  have hfree := first_le_freeAddress s.word (Nat.le_trans (Nat.le_add_right _ _) hroom)
  exact ⟨hs.accepts, hfree.1, hfree.2⟩

variable (hlt : page < 2 ^ 32)
include hlt

/-- Compactions stay in the two blocks. -/
lemma survives_roams : @Survives size page Roams Bounded fun _ => True where
  leads h := h.roams
  bounded h := h
  keeps hs h := h.bounded hs
  compactNow {s} hs _ := by
    have hs' := bounded_serve_iff.1 hs
    apply Ensures.mono (leads_compactNow hlt hs')
    · rintro _ s' ⟨hroams, -, -, hin, -⟩
      exact ⟨hroams, hin, bounded_serve_iff.2 (hroams.bounded hs')⟩
    · rintro e s' ⟨hroams, he, hin, -⟩
      exact ⟨hroams, he, hin, (stays_retire s').bounded (hroams.bounded hs')⟩

/-- Whatever a store on flash is called for, it stays in its two blocks. -/
theorem roams_run (hs : s.Bounded) (command : StoreCommand) : s.Roams (command.run s).2 := by
  have hformat {s : NorStore size page} (hs : s.Bounded) : Keeps Roams Bounded format s := by
    apply Ensures.mono (leads_format hlt hs)
    · rintro _ s' ⟨hroams, -⟩
      exact ⟨hroams, hroams.bounded hs⟩
    · rintro e s' ⟨hroams, -⟩
      exact ⟨hroams, hroams.bounded hs⟩
  have hretire := (stays_retire s).bounded hs
  have hrecover : Keeps Roams Bounded recover s := by
    apply (survives_roams hlt).recover _ (fun _ => hformat hretire) _ fun _ _ => trivial
    · exact fun s => ⟨rfl, bounded_serve_iff.2, refl_of _ s.device⟩
    · intro side g _
      have hresume := hretire.resume side g
      exact ⟨⟨rfl, fun _ => hresume, refl_of _ s.device⟩, bounded_serve_iff.2 hresume⟩
  exact ((survives_roams hlt).run hs (fun _ _ => trivial) (fun _ => hrecover)
    fun _ => hformat hs).1

omit hlt in
/-- A call that starts no compaction, opens no block and formats none stays in the current block. -/
theorem stays_run (hs : s.Bounded) {command : StoreCommand} (hrecover : command ≠ .recover)
    (hformat : command ≠ .format) (h : command.compactions s = []) :
    s.Stays (command.run s).2 :=
  (survives_stays.run hs (fun g hg => by simp [h] at hg) (fun he => absurd he hrecover)
    fun he => absurd he hformat).1

omit hlt in
lemma bounded_of_attach {d : NorFlash size page} {p : Placement} {s : NorStore size page}
    (h : attach d p = .ok s) : s.placement = p ∧ s.device = d ∧ s.Bounded := by
  obtain ⟨haccepts, rfl⟩ := attach_eq_ok h
  have hroom := (Placement.fits_of_accepts haccepts).first_add_le .a
  exact ⟨rfl, rfl, haccepts, Nat.le_refl _, Nat.le_trans (Nat.le_add_right _ _) hroom⟩

end Store

end FlashStore
