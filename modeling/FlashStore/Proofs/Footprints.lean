import Mathlib.Order.Interval.Set.Basic
import FlashStore.Proofs.LawfulFlash
import FlashStore.Proofs.Persisted

/-!
# Footprints on NOR flash

Which bytes of NOR flash a sequence of programs and erases can change, whether it succeeds or fails
and whatever the flash holds: a record is laid out and removed within its span, a block is wiped
within its bounds. `Leads R x s V E` says so of a sequence, for any preorder `R` of states that
tells what may change.
-/

namespace FlashStore

/-! ### Operations along a preorder -/

variable {ε σ α β : Type}

/-- However the operation ends, it leads up the preorder. A success has the first property, a
failure the second. -/
def Leads (R : σ → σ → Prop) (x : EStateM ε σ α) (s : σ) (V : α → σ → Prop) (E : ε → σ → Prop) :
    Prop :=
  Ensures x s (fun a s' => R s s' ∧ V a s') (fun e s' => R s s' ∧ E e s')

namespace Leads

variable {R R' : σ → σ → Prop} {x : EStateM ε σ α} {s : σ} {V V' : α → σ → Prop}
  {E E' : ε → σ → Prop} {W : β → σ → Prop}

lemma mono (h : Leads R x s V E) (hR : ∀ s', R s s' → R' s s') (hV : ∀ a s', V a s' → V' a s')
    (hE : ∀ e s', E e s' → E' e s') : Leads R' x s V' E' :=
  Ensures.mono h (fun a s' h' => ⟨hR s' h'.1, hV a s' h'.2⟩)
    fun e s' h' => ⟨hR s' h'.1, hE e s' h'.2⟩

lemma mono_rel (h : Leads R x s V E) (hR : ∀ s', R s s' → R' s s') : Leads R' x s V E :=
  h.mono hR (fun _ _ h => h) fun _ _ h => h

lemma get_bind {f : σ → EStateM ε σ β} (h : Leads R (f s) s W E) : Leads R (get >>= f) s W E := h

lemma modify {f : σ → σ} {V : PUnit → σ → Prop} (hR : R s (f s)) (hV : V ⟨⟩ (f s)) :
    Leads R (modify f : EStateM ε σ PUnit) s V E := Ensures.modify ⟨hR, hV⟩

/-- How an operation ended can be kept in mind. -/
lemma with_run (h : Leads R x s V E) :
    Leads R x s (fun a s' => V a s' ∧ x.run s = .ok a s') E := by
  unfold Leads Ensures at h ⊢
  cases hx : x.run s with
  | ok a s' =>
    rw [hx] at h
    exact ⟨h.1, h.2, rfl⟩
  | error e s' =>
    rw [hx] at h
    exact h

variable [IsPreorder σ R]

lemma pure {a : α} (h : V a s) : Leads R (Pure.pure a) s V E := Ensures.pure ⟨refl_of R s, h⟩

lemma throw {e : ε} (h : E e s) : Leads R (throw e : EStateM ε σ α) s V E :=
  Ensures.throw ⟨refl_of R s, h⟩

lemma bind {f : α → EStateM ε σ β} (hx : Leads R x s V E)
    (hf : ∀ a s', R s s' → V a s' → Leads R (f a) s' W E) : Leads R (x >>= f) s W E := by
  apply Ensures.bind hx
  intro a s' h
  apply Ensures.mono (hf a s' h.1 h.2)
  · intro b s'' h'
    exact ⟨trans_of R h.1 h'.1, h'.2⟩
  · intro e s'' h'
    exact ⟨trans_of R h.1 h'.1, h'.2⟩

/-- A walk along a list leads up the preorder if all of its steps do. -/
lemma forM {l : List α} {f : α → EStateM ε σ PUnit}
    (h : ∀ a ∈ l, ∀ s', R s s' → Leads R (f a) s' (fun _ _ => True) E) :
    Leads R (l.forM f) s (fun _ _ => True) E := by
  induction l generalizing s with
  | nil => exact pure trivial
  | cons a l ih =>
    rw [List.forM]
    apply bind (h a List.mem_cons_self s (refl_of R s))
    intro _ s' hs' _
    apply ih
    intro a' ha' s'' hs''
    exact h a' (List.mem_cons_of_mem a ha') s'' (trans_of R hs' hs'')

end Leads

/-! ### What changes on the flash -/

variable {size page : Nat} {S T : Set Nat} {d d' : NorFlash size page}

namespace NorFlash

/-- Bytes have changed at some addresses only. -/
def ChangedOn (S : Set Nat) (d d' : NorFlash size page) : Prop := ∀ i ∉ S, d'.byte i = d.byte i

/-- Bytes have changed at some addresses only, and no page has been erased. -/
structure ProgrammedOn (S : Set Nat) (d d' : NorFlash size page) : Prop where
  changedOn : d.ChangedOn S d'
  erases_eq : d'.erases = d.erases

instance : IsPreorder (NorFlash size page) (ChangedOn S) where
  refl _ _ _ := rfl
  trans _ _ _ h h' i hi := (h' i hi).trans (h i hi)

instance : IsPreorder (NorFlash size page) (ProgrammedOn S) where
  refl d := ⟨refl_of (ChangedOn S) d, rfl⟩
  trans _ _ _ h h' := ⟨trans_of (ChangedOn S) h.changedOn h'.changedOn,
    h'.erases_eq.trans h.erases_eq⟩

lemma ChangedOn.mono (h : d.ChangedOn S d') (hST : S ⊆ T) : d.ChangedOn T d' :=
  fun i hi => h i fun hi' => hi (hST hi')

lemma ProgrammedOn.mono (h : d.ProgrammedOn S d') (hST : S ⊆ T) : d.ProgrammedOn T d' :=
  ⟨h.changedOn.mono hST, h.erases_eq⟩

/-- Bytes apart from those that are put stay. -/
lemma byte_put_of_notMem (d : NorFlash size page) {a i : Nat} {bs : List UInt8}
    (h : i ∉ Set.Ico a (a + bs.length)) : (d.put a bs).byte i = d.byte i := by
  rw [Set.mem_Ico] at h
  rw [byte_put]
  split
  · rw [List.getElem?_eq_none (by omega), Option.getD_none]
  · rfl

end NorFlash

open NorFlash

/-! ### Programs -/

/-- The error leaves what a store keeps in memory in doubt, whatever state it comes with. -/
abbrev Disrupts {σ : Type} (e : StoreError) (_ : σ) : Prop := e.isDisruptive = true

/-- A program that fails leaves the flash alone, or a word that is not the one to be programmed. -/
lemma leads_programVerified (a : Nat) (w : Word) (d : NorFlash size page) :
    Leads (ProgrammedOn (Set.Ico a (a + 4))) (programVerified a w) d
      (fun _ d' => d'.readWord a = w)
      (fun e d' => e.isDisruptive = true ∧ (d' = d ∨ d'.readWord a ≠ w)) := by
  have hput : d.ProgrammedOn (Set.Ico a (a + 4))
      { (d.put a (d.readWord a &&& w).toBytes).spend with programs := d.programs + 1 } := by
    refine ⟨fun i hi => ?_, rfl⟩
    show (d.put a (d.readWord a &&& w).toBytes).byte i = d.byte i
    apply byte_put_of_notMem
    rwa [Word.length_toBytes]
  unfold Leads Ensures
  rw [run_programVerified, flashDevice_programWord, run_programWord]
  cases d.refusal 4 a with
  | some e => exact ⟨refl_of _ d, rfl, Or.inl rfl⟩
  | none =>
    dsimp only
    split_ifs with h
    · exact ⟨hput, h⟩
    · exact ⟨hput, rfl, Or.inr h⟩

/-- A program of a word within a range changes nothing outside of it. -/
lemma leads_programVerified_of_le {lo hi a : Nat} (hlo : lo ≤ a) (hhi : a + 4 ≤ hi) (w : Word)
    (d : NorFlash size page) :
    Leads (ProgrammedOn (Set.Ico lo hi)) (programVerified a w) d (fun _ _ => True) Disrupts :=
  (leads_programVerified a w d).mono (fun _ h => h.mono (Set.Ico_subset_Ico hlo hhi))
    (fun _ _ _ => trivial) fun _ _ h => h.1

lemma leads_programWords {lo hi : Nat} (ws : List Word) {a : Nat} (hlo : lo ≤ a)
    (hhi : a + 4 * ws.length ≤ hi) (d : NorFlash size page) :
    Leads (ProgrammedOn (Set.Ico lo hi)) (programWords a ws) d (fun _ _ => True) Disrupts := by
  induction ws generalizing a d with
  | nil => exact Leads.pure trivial
  | cons w ws ih =>
    rw [List.length_cons] at hhi
    rw [programWords_cons]
    apply Leads.bind (leads_programVerified_of_le hlo (by omega) w d)
    intro _ d' _ _
    exact ih (by omega) (by omega) d'

/-! ### Records -/

lemma leads_commitRecord {r : Record} {ws : List Word} {hi : Nat}
    (h : r.payloadAddress + 4 * ws.length ≤ hi) (d : NorFlash size page) :
    Leads (ProgrammedOn (Set.Ico r.address hi)) (commitRecord r ws) d (fun _ _ => True)
      Disrupts := by
  have hpay : r.payloadAddress = r.address + 8 := rfl
  have hlen : r.lengthAddress = r.address + 4 := rfl
  have hid : r.idAddress = r.address := rfl
  unfold commitRecord
  apply Leads.bind (leads_programWords ws (by omega) h d)
  intro _ d₁ _ _
  apply Leads.bind (leads_programVerified_of_le (by omega) (by omega) r.length d₁)
  intro _ d₂ _ _
  exact leads_programVerified_of_le (by omega) (by omega) r.id d₂

lemma recordSpan_mono {m n : Nat} (h : m ≤ n) : recordSpan m ≤ recordSpan n := by
  simp only [recordSpan, roundToWords]
  omega

/-- A record is laid out within its span, even one whose length does not fit its header. -/
lemma leads_writeRecord (a : Nat) (id : Word) (data : List UInt8) (d : NorFlash size page) :
    Leads (ProgrammedOn (Set.Ico a (a + recordSpan data.length))) (writeRecord a id data) d
      (fun z _ => a ≤ z ∧ z ≤ a + recordSpan data.length) Disrupts := by
  have hwords : 4 * ((packWords data).length + 2) = recordSpan data.length :=
    four_mul_length_valueImage id data
  have hlen : (UInt32.ofNat data.length).toNat ≤ data.length := by
    rw [UInt32.toNat_ofNat']
    exact Nat.mod_le _ _
  unfold writeRecord
  apply Leads.bind (V := fun _ _ => True)
  · apply leads_commitRecord
    simp only [Record.payloadAddress, payloadOffset]
    omega
  · intro _ d' _ _
    apply Leads.pure
    exact ⟨Nat.le_add_right _ _, Nat.add_le_add_left (recordSpan_mono hlen) a⟩

lemma leads_copyRecord (r : Record) (a : Nat) (d : NorFlash size page) :
    Leads (ProgrammedOn (Set.Ico a (a + r.span))) (copyRecord r a) d (fun z _ => z = a + r.span)
      Disrupts := by
  have hwords : 4 * ((r.words (FlashDevice.readWord d)).length + 2) = r.span :=
    r.four_mul_length_image (FlashDevice.readWord d)
  unfold copyRecord
  apply Leads.get_bind
  apply Leads.bind (V := fun _ _ => True)
  · apply leads_commitRecord (r := { r with address := a })
    simp only [Record.payloadAddress, payloadOffset]
    omega
  · intro _ d' _ _
    exact Leads.pure rfl

lemma leads_copyRecords (rs : List Record) (a : Nat) (d : NorFlash size page) :
    Leads (ProgrammedOn (Set.Ico a (a + Record.totalSpan rs))) (copyRecords rs a) d
      (fun z _ => z = a + Record.totalSpan rs) Disrupts := by
  induction rs generalizing a d with
  | nil => exact Leads.pure rfl
  | cons r rs ih =>
    rw [Record.totalSpan_cons]
    unfold copyRecords
    apply Leads.bind (V := fun z _ => z = a + r.span)
    · apply (leads_copyRecord r a d).mono_rel
      intro d' h
      exact h.mono (Set.Ico_subset_Ico (Nat.le_refl a) (by omega))
    · intro z d' _ hz
      rw [hz]
      apply (ih (a + r.span) d').mono
      · intro d'' h
        exact h.mono (Set.Ico_subset_Ico (by omega) (by omega))
      · intro z' _ hz'
        rw [hz', Nat.add_assoc]
      · exact fun _ _ h => h

lemma leads_removeRecord (r : Record) (d : NorFlash size page) :
    Leads (ProgrammedOn (Set.Ico r.address r.stop)) (removeRecord r) d (fun _ _ => True)
      Disrupts := by
  have hpay : r.payloadAddress = r.address + 8 := rfl
  have hid : r.idAddress = r.address := rfl
  have hend := r.payload_stop
  unfold removeRecord
  apply Leads.bind (V := fun _ _ => True)
  · apply leads_programWords _ (by omega)
    rw [List.length_replicate]
    omega
  · intro _ d' _ _
    exact leads_programVerified_of_le (by omega) (by omega) removedId d'

/-! ### Headers -/

lemma readWord_of_changedOn (h : d.ChangedOn S d') {a : Nat}
    (ha : ∀ i, a ≤ i → i < a + 4 → i ∉ S) : d'.readWord a = d.readWord a := by
  have hbytes : d'.bytesFrom a 4 = d.bytesFrom a 4 := by
    apply List.map_congr_left
    intro k hk
    rw [List.mem_range] at hk
    exact h (a + k) (ha (a + k) (by omega) (by omega))
  rw [readWord, hbytes, readWord]

/-- A header reads as before if none of its bytes has changed. -/
lemma header_of_changedOn (h : d.ChangedOn S d') {block : Block}
    (hS : ∀ i, block.base ≤ i → i < block.first → i ∉ S) :
    header d'.readWord block = header d.readWord block := by
  have hfirst := block.first_eq
  apply header_congr
  · exact readWord_of_changedOn h fun i h₁ h₂ => hS i (by omega) (by omega)
  · exact readWord_of_changedOn h fun i h₁ h₂ => hS i (by omega) (by omega)

lemma header_eq_none_iff {m : Memory} {block : Block} :
    header m block = none ↔ m block.base ≠ magic := by
  rw [header_def]
  split_ifs with h <;> simp [h]

/-- No magic word starts with an erased byte. -/
lemma header_of_byte_erased {block : Block} (h : d.byte block.base = 0xFF) :
    header d.readWord block = none := by
  rw [header_eq_none_iff]
  intro hmagic
  unfold readWord at hmagic
  split_ifs at hmagic
  · have hbytes := congrArg Word.toBytes hmagic
    have hlist : d.bytesFrom block.base 4 = [d.byte block.base, d.byte (block.base + 1),
        d.byte (block.base + 2), d.byte (block.base + 3)] := rfl
    rw [hlist, Word.toBytes_ofBytes, h] at hbytes
    exact absurd (List.cons.inj hbytes).1 (by decide)
  · exact absurd hmagic (by decide)

/-- Program the header of a block, the magic word last. -/
def stampHeader {δ : Type} [FlashDevice δ] (block : Block) (g : Word) : ProgramM δ Unit := do
  programVerified block.counterAddress g
  programVerified block.magicAddress magic

/-- A block without a header has one only if all of it has been programmed. -/
lemma leads_stampHeader {block : Block} (g : Word) (h : header d.readWord block = none) :
    Leads (ProgrammedOn (Set.Ico block.base block.first)) (stampHeader block g) d
      (fun _ d' => header d'.readWord block = some g)
      (fun e d' => e.isDisruptive = true ∧ header d'.readWord block = none) := by
  have hmagic : block.magicAddress = block.base := rfl
  have hcounter : block.counterAddress = block.base + 4 := rfl
  have hfirst := block.first_eq
  rw [header_eq_none_iff] at h
  unfold stampHeader
  rw [hmagic, hcounter]
  -- the counter is programmed apart from the magic word, so there is no header yet
  have hcount := leads_programVerified (block.base + 4) g d
  have hnone {d₁ : NorFlash size page}
      (h₁ : d.ProgrammedOn (Set.Ico (block.base + 4) (block.base + 4 + 4)) d₁) :
      d₁.readWord block.base ≠ magic := by
    rw [readWord_of_changedOn h₁.changedOn fun i h₁ h₂ => by rw [Set.mem_Ico]; omega]
    exact h
  apply Leads.bind (V := fun _ d₁ => d₁.readWord (block.base + 4) = g ∧
    d₁.readWord block.base ≠ magic)
  · unfold Leads at hcount ⊢
    apply Ensures.mono hcount
    · intro _ d₁ h₁
      exact ⟨h₁.1.mono (Set.Ico_subset_Ico (by omega) (by omega)), h₁.2, hnone h₁.1⟩
    · intro e d₁ h₁
      exact ⟨h₁.1.mono (Set.Ico_subset_Ico (by omega) (by omega)), h₁.2.1,
        header_eq_none_iff.2 (hnone h₁.1)⟩
  · intro _ d₁ _ h₁
    have hstamp := leads_programVerified block.base magic d₁
    unfold Leads at hstamp ⊢
    apply Ensures.mono hstamp
    · intro _ d₂ h₂
      refine ⟨h₂.1.mono (Set.Ico_subset_Ico (by omega) (by omega)), header_eq_some h₂.2 ?_⟩
      rw [readWord_of_changedOn h₂.1.changedOn fun i h₁ h₂ => by rw [Set.mem_Ico]; omega]
      exact h₁.1
    · intro e d₂ h₂
      refine ⟨h₂.1.mono (Set.Ico_subset_Ico (by omega) (by omega)), h₂.2.1, ?_⟩
      rw [header_eq_none_iff]
      rcases h₂.2.2 with rfl | hne
      · exact h₁.2
      · exact hne

/-! ### Blocks -/

/-- The addresses of a block. -/
def Block.extent (block : Block) : Set Nat := Set.Ico block.base block.stop

/-- Records are copied to a block without a header, which has one once all of them are in place. -/
lemma leads_fillBlock {block : Block} {rs : List Record} (g : Word)
    (hroom : block.first + Record.totalSpan rs ≤ block.stop)
    (h : header d.readWord block = none) :
    Leads (ProgrammedOn block.extent) (do
        let cursor ← copyRecords rs block.first
        programVerified block.counterAddress g
        programVerified block.magicAddress magic
        return cursor) d
      (fun z d' => z = block.first + Record.totalSpan rs ∧ header d'.readWord block = some g)
      (fun e d' => e.isDisruptive = true ∧ header d'.readWord block = none) := by
  have hfirst := block.first_eq
  have hcopied {d₁ : NorFlash size page}
      (h₁ : d.ProgrammedOn (Set.Ico block.first (block.first + Record.totalSpan rs)) d₁) :
      header d₁.readWord block = none := by
    rw [header_of_changedOn h₁.changedOn fun i _ hi => by rw [Set.mem_Ico]; omega]
    exact h
  apply Leads.bind (V := fun z d₁ => z = block.first + Record.totalSpan rs ∧
    header d₁.readWord block = none)
  · apply Ensures.mono (leads_copyRecords rs block.first d)
    · rintro z d₁ ⟨h₁, hz⟩
      exact ⟨h₁.mono (Set.Ico_subset_Ico (by omega) hroom), hz, hcopied h₁⟩
    · rintro e d₁ ⟨h₁, he⟩
      exact ⟨h₁.mono (Set.Ico_subset_Ico (by omega) hroom), he, hcopied h₁⟩
  · rintro z d₁ - ⟨hz, h₁⟩
    rw [← bind_assoc]
    apply Leads.bind (V := fun _ d₂ => header d₂.readWord block = some g)
    · apply (leads_stampHeader g h₁).mono_rel
      intro d₂ h₂
      exact h₂.mono (Set.Ico_subset_Ico (Nat.le_refl _) (by omega))
    · intro _ d₂ _ h₂
      exact Leads.pure ⟨hz, h₂⟩

/-- Bytes of a block have changed, and its first byte has not been taken out of its erased state. -/
def NorFlash.Wiping (block : Block) (d d' : NorFlash size page) : Prop :=
  d.ChangedOn block.extent d' ∧ (d.byte block.base = 0xFF → d'.byte block.base = 0xFF)

instance {block : Block} : IsPreorder (NorFlash size page) (Wiping block) where
  refl d := ⟨refl_of _ d, fun h => h⟩
  trans _ _ _ h h' := ⟨trans_of _ h.1 h'.1, fun hb => h'.2 (h.2 hb)⟩

/-- An erase that fails leaves the flash alone. -/
lemma leads_erasePage (a : Nat) (d : NorFlash size page) :
    Leads (ChangedOn (Set.Ico a (a + page)))
      (EStateM.adaptExcept StoreError.device (FlashDevice.erasePage (δ := NorFlash size page) a)) d
      (fun _ d' => ∀ i ∈ Set.Ico a (a + page), d'.byte i = 0xFF)
      (fun e d' => e.isDisruptive = true ∧ d' = d) := by
  unfold Leads Ensures
  rw [EStateM.run_adaptExcept, flashDevice_erasePage, run_erasePage]
  cases hrefusal : d.refusal page a with
  | some e => exact ⟨refl_of _ d, rfl, rfl⟩
  | none =>
    constructor
    · intro i hi
      show (d.put a (List.replicate page 0xFF)).byte i = d.byte i
      apply byte_put_of_notMem
      rwa [List.length_replicate]
    · intro i hi
      rw [Set.mem_Ico] at hi
      obtain ⟨⟨-, hsize⟩, -⟩ := refusal_eq_none_iff.1 hrefusal
      exact d.byte_put_replicate 0xFF hi.1 hi.2 hsize

section Wipe

variable {block : Block} (hpos : 0 < page) (hdvd : page ∣ block.size)
include hpos hdvd

/-- A page that starts in the block ends in it, since both start on a page. -/
lemma Block.page_stop_le {a : Nat} (ha : a ∈ block.pages page) :
    block.base ≤ a ∧ a + page ≤ block.stop := by
  obtain ⟨hle, hstop, i, hi⟩ := (Block.mem_pages hdvd hpos).1 ha
  have hsize := block.stop_eq
  obtain ⟨n, hn⟩ := hdvd
  have hin : i < n := by
    apply Nat.lt_of_mul_lt_mul_left (a := page)
    rw [← hi, ← hn]
    omega
  have hmul : page * (i + 1) ≤ page * n := Nat.mul_le_mul_left page hin
  rw [Nat.mul_succ, ← hi, ← hn] at hmul
  exact ⟨hle, by omega⟩

lemma leads_wipePage {a : Nat} (ha : a ∈ block.pages page) (d : NorFlash size page) :
    Leads (Wiping block)
      (EStateM.adaptExcept StoreError.device (FlashDevice.erasePage (δ := NorFlash size page) a)) d
      (fun _ d' => a = block.base → d'.byte block.base = 0xFF)
      (fun e d' => e.isDisruptive = true ∧ d' = d) := by
  obtain ⟨hle, hstop⟩ := Block.page_stop_le hpos hdvd ha
  apply Ensures.mono (leads_erasePage a d)
  · rintro _ d' ⟨hchanged, herased⟩
    refine ⟨⟨hchanged.mono (Set.Ico_subset_Ico hle hstop), fun hbase => ?_⟩, ?_⟩
    · by_cases hmem : block.base ∈ Set.Ico a (a + page)
      · exact herased block.base hmem
      · rw [hchanged block.base hmem]
        exact hbase
    · rintro rfl
      exact herased block.base (by rw [Set.mem_Ico]; omega)
  · rintro e d' ⟨-, he, rfl⟩
    exact ⟨refl_of _ d', he, rfl⟩

/-- A wipe stays within the block, and takes the header first. -/
lemma leads_wipeBlock (hlt : page < 2 ^ 32) (hsize : 0 < block.size) (d : NorFlash size page) :
    Leads (ChangedOn block.extent) (wipeBlock block) d
      (fun _ d' => header d'.readWord block = none)
      (fun e d' => e.isDisruptive = true ∧ (header d'.readWord block = header d.readWord block ∨
        header d'.readWord block = none)) := by
  obtain ⟨pages, hpages⟩ : ∃ pages, block.pages page = block.base :: pages := by
    obtain ⟨n, hn⟩ : ∃ n, (block.size + page - 1) / page = n + 1 := by
      have : 0 < (block.size + page - 1) / page := Nat.div_pos (by omega) hpos
      exact ⟨_, (Nat.succ_pred_eq_of_pos this).symm⟩
    rw [Block.pages, hn, List.range_succ_eq_map]
    exact ⟨_, rfl⟩
  unfold wipeBlock
  rw [toNat_pageSize hlt, hpages, List.forM]
  have hmem {a : Nat} (ha : a ∈ block.base :: pages) : a ∈ block.pages page := hpages ▸ ha
  apply Leads.bind (V := fun _ d' => header d'.readWord block = none)
  -- The page of the header is the first one. Once it is erased, the others cannot bring it back.
  · apply Leads.bind (V := fun _ d' => d'.byte block.base = 0xFF)
    · apply Ensures.mono (leads_wipePage hpos hdvd (hmem List.mem_cons_self) d)
      · rintro _ d' ⟨hwiping, hbase⟩
        exact ⟨hwiping.1, hbase rfl⟩
      · rintro e d' ⟨hwiping, he, rfl⟩
        exact ⟨hwiping.1, he, Or.inl rfl⟩
    · intro _ d₁ _ h₁
      have hrest : Leads (Wiping block) (pages.forM fun a => EStateM.adaptExcept StoreError.device
          (FlashDevice.erasePage (δ := NorFlash size page) a)) d₁ (fun _ _ => True) Disrupts := by
        apply Leads.forM
        intro a ha d' _
        apply (leads_wipePage hpos hdvd (hmem (List.mem_cons_of_mem _ ha)) d').mono
        · exact fun _ h => h
        · exact fun _ _ _ => trivial
        · exact fun _ _ h => h.1
      apply Ensures.mono hrest
      · rintro _ d' ⟨hwiping, -⟩
        exact ⟨hwiping.1, header_of_byte_erased (hwiping.2 h₁)⟩
      · rintro e d' ⟨hwiping, he⟩
        exact ⟨hwiping.1, he, Or.inr (header_of_byte_erased (hwiping.2 h₁))⟩
  · intro _ d' _ h
    apply Leads.get_bind
    split
    · exact Leads.throw ⟨rfl, Or.inr h⟩
    · exact Leads.pure h

end Wipe

end FlashStore
